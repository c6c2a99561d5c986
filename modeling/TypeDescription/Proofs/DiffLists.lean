import TypeDescription.Proofs.ListCalls

/-!
Difference lists and the lists in them. A difference list is written by paths that begin at itself,
and a list by paths that begin at its first item, so the chain is built twice by different paths.
Both build the same chain: below the first feature stands the AVM of the list with the same items
and an open end, and below the second one the same end again.
-/

namespace TypeDescription

theorem get_open_end_of_values (items : List Conjunction) :
    (DiffList.ofValues items).avm.get? (DiffList.ofValues items).openEndPath = some DiffList.openEnd := by
  have length : (DiffList.ofValues items).length = items.length := rfl
  rw [DiffList.openEndPath, length, get_chain_of_values]
  exact get_end_linked items DiffList.openEnd

namespace DiffList

/-- The path to the open end is read back as it was written. -/
theorem of_text_open_end_path (d : DiffList) : Path.ofText d.openEndPath.text = d.openEndPath := by
  apply Path.of_text_text (List.cons_ne_nil _ _)
  intro name member
  rcases List.mem_cons.mp member with rfl | member
  · exact ⟨by decide, by decide⟩
  · rw [List.eq_of_mem_replicate member]
    exact ⟨by decide, by decide⟩

/-- Some items can be ended by the open end of a difference list. -/
theorem list_with_open_end {items : List Conjunction} (nonempty : items ≠ []) :
    ConsList.ofValues items openEnd = .ok (.holding items (some openEnd)) := by
  -- A coreference is neither of the marks that end a list.
  have value : ListEnd.of openEnd = .value := rfl
  rw [ConsList.of_values_eq]
  simp [value, nonempty]

/-- Difference lists are encoded exactly. What is put in comes out, and there are two features: the
chain and the open end. Both the end of the chain and the second feature are the coreference
without a tag. The chain is the AVM of the list of the same items with that end; of no items there
is nothing but the end. -/
theorem of_values_encodes (items : List Conjunction) :
    let d := ofValues items
    d.length = items.length ∧ d.values = items ∧
      d.avm.get? (Path.ofText d.openEndPath.text) = some [.coreference none none] ∧
      d.avm.get? (Path.ofText diffListLast) = some [.coreference none none] ∧
      ∃ chain, d.avm.features =
          some [(diffListChain, chain), (diffListLast, [.coreference none none])] ∧
        (items = [] → chain = [.coreference none none]) ∧
        (items ≠ [] →
          ∃ l, ConsList.ofValues items [.coreference none none] = .ok l ∧ chain = [.avm l.avm]) := by
  intro d
  have last : Path.ofText diffListLast = [diffListLast] := by decide
  refine ⟨rfl, ofValues_values items, ?_, ?_, _, features_of_values items, ?_, ?_⟩
  · rw [of_text_open_end_path]
    exact get_open_end_of_values items
  · rw [last]
    exact get_last_of_values items
  · intro none
    rw [none]
    rfl
  · intro nonempty
    exact ⟨_, list_with_open_end nonempty, (chain_linked nonempty _).symm⟩

/-- Two items that have features of the names by which lists are linked: an AVM and a list. -/
theorem of_values_encodes_items_with_links :
    let x : Avm := ⟨some [("REST", [.named "x"]), ("LIST", [.named "y"])], none⟩
    let items : List Conjunction := [[.avm x], [.cons (.holding [[.avm x]] none), .named "z"]]
    items ≠ [] ∧
      ∃ l, ConsList.ofValues items [.coreference none none] = .ok l ∧
        (ofValues items).avm.features =
          some [("LIST", [.avm l.avm]), ("LAST", [.coreference none none])] := by
  intro x items
  have nonempty : items ≠ [] := List.cons_ne_nil _ _
  obtain ⟨-, -, -, -, chain, features, -, same⟩ := of_values_encodes items
  obtain ⟨l, made, rfl⟩ := same nonempty
  exact ⟨nonempty, l, made, features⟩

end DiffList

end TypeDescription
