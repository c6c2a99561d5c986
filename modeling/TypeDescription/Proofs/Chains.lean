import Mathlib.Data.List.Basic
import Mathlib.Data.List.Induction
import TypeDescription.Proofs.Places

/-!
The chain of a list. Items are written one after the other at the end of a chain that grows with
them, and the end of the list is written last. What comes out can be said at once: every item is a
feature of its own AVM, and the AVM of the next item is the value of the feature beside it.
-/

namespace TypeDescription

/-! ## Links -/

/-- A feature that may be missing. A value of no terms is a value. -/
def featureIf (name : String) (value : Option Conjunction) : Features :=
  value.toList.map fun value => (name, value)

theorem update_feature_if (name : String) (value : Option Conjunction)
    (change : Conjunction → Conjunction) :
    (featureIf name value).update name change = [(name, change (value.getD []))] := by
  cases value with
  | none => rfl
  | some value => exact if_pos rfl

/-- What leads from one item to the next, and from the last one to the end, if there is an end. -/
def linked : List Conjunction → Option Conjunction → Option Conjunction
  | [], last => last
  | item :: rest, last =>
    some [.avm ⟨some ((listHead, item) :: featureIf listTail (linked rest last)), none⟩]

theorem linked_append (items more : List Conjunction) (last : Option Conjunction) :
    linked (items ++ more) last = linked items (linked more last) := by
  induction items with
  | nil => rfl
  | cons item rest ih => rw [List.cons_append, linked, ih, linked]

theorem linked_some (items : List Conjunction) (last : Conjunction) :
    ∃ value, linked items (some last) = some value := by
  cases items <;> exact ⟨_, rfl⟩

/-- Writing below the end changes the end and none of the links. -/
theorem set_linked (items : List Conjunction) (last : Option Conjunction) (path : Path)
    (value : Conjunction) :
    some (Conjunction.set ((linked items last).getD []) (tailPath items.length ++ path) value) =
      linked items (some (Conjunction.set (last.getD []) path value)) := by
  induction items with
  | nil => rfl
  | cons item rest ih =>
    have differ : listHead ≠ listTail := by decide
    rw [List.length_cons, tailPath, List.replicate_succ, List.cons_append, linked, Option.getD_some,
      Conjunction.set, Conjunction.updateAvm, Avm.update]
    simp only [Avm.entries, Option.getD_some, Features.update, if_neg differ, update_feature_if]
    rw [← tailPath, linked, ← ih]
    rfl

/-- The value of the link after the first item. -/
private theorem get_linked_cons (item : Conjunction) {rest : List Conjunction}
    {last : Option Conjunction} {value : Conjunction} (more : linked rest last = some value)
    (path : Path) :
    Conjunction.get? ((linked (item :: rest) last).getD []) (listTail :: path) =
      value.get? path := by
  have differ : (listTail == listHead) = false := by decide
  rw [linked, more, Option.getD_some, Conjunction.get?]
  simp [Conjunction.avms, Term.avm?, Avm.entries, featureIf, List.lookup_cons, differ]

theorem get_item_linked {items : List Conjunction} (last : Option Conjunction) {index : Nat}
    (inside : index < items.length) :
    Conjunction.get? ((linked items last).getD []) (itemPath index) = items[index]? := by
  induction items generalizing index with
  | nil => cases inside
  | cons item rest ih =>
    cases index with
    | zero => simp [itemPath, linked, Conjunction.get?, Conjunction.avms, Term.avm?, Avm.entries]
    | succ index =>
      have inside := Nat.lt_of_succ_lt_succ inside
      obtain ⟨value, more⟩ : ∃ value, linked rest last = some value := by
        cases rest with
        | nil => cases inside
        | cons next rest => exact ⟨_, rfl⟩
      have found := ih inside
      rw [more, Option.getD_some] at found
      rw [itemPath, List.replicate_succ, List.cons_append, ← itemPath, get_linked_cons item more,
        List.getElem?_cons_succ, found]

theorem get_end_linked (items : List Conjunction) (last : Conjunction) :
    Conjunction.get? ((linked items (some last)).getD []) (tailPath items.length) = some last := by
  induction items with
  | nil => rfl
  | cons item rest ih =>
    obtain ⟨value, more⟩ := linked_some rest last
    rw [more, Option.getD_some] at ih
    rw [List.length_cons, tailPath, List.replicate_succ, ← tailPath, get_linked_cons item more, ih]

/-- Nothing is found after the last item of an open chain. -/
theorem get_open_linked {items : List Conjunction} (nonempty : items ≠ []) :
    Conjunction.get? ((linked items none).getD []) (tailPath items.length) = none := by
  induction items with
  | nil => exact absurd rfl nonempty
  | cons item rest ih =>
    cases rest with
    | nil => rfl
    | cons next rest =>
      obtain ⟨value, more⟩ : ∃ value, linked (next :: rest) none = some value := ⟨_, rfl⟩
      have found := ih (List.cons_ne_nil _ _)
      rw [more, Option.getD_some] at found
      rw [List.length_cons, tailPath, List.replicate_succ, ← tailPath, get_linked_cons item more, found]

/-! ## Lists -/

theorem set_single (a : Avm) {path : Path} (nonempty : path ≠ []) (value : Conjunction) :
    Conjunction.set [.avm a] path value = [.avm (a.set path value)] := by
  cases path with
  | nil => exact absurd rfl nonempty
  | cons name rest => rfl

theorem get_single (a : Avm) {path : Path} (nonempty : path ≠ []) :
    Conjunction.get? [.avm a] path = a.get? path := by
  cases path with
  | nil => exact absurd rfl nonempty
  | cons name rest => simp [Conjunction.get?, Conjunction.avms, Term.avm?, Avm.get?]

/-- The AVM of a list with these items and this end. Where there is nothing to link, the AVM is
empty, and null once there is an end. -/
def Avm.chain : List Conjunction → Option Conjunction → Avm
  | [], none => .empty
  | [], some _ => { features := none, doc := none }
  | item :: rest, last => ⟨some ((listHead, item) :: featureIf listTail (linked rest last)), none⟩

theorem chain_linked {items : List Conjunction} (nonempty : items ≠ []) (last : Option Conjunction) :
    [.avm (Avm.chain items last)] = (linked items last).getD [] := by
  cases items with
  | nil => exact absurd rfl nonempty
  | cons item rest => rfl

theorem doc_chain (items : List Conjunction) (last : Option Conjunction) :
    (Avm.chain items last).doc = none := by
  cases items <;> cases last <;> rfl

theorem is_null_chain (items : List Conjunction) (last : Option Conjunction) :
    (Avm.chain items last).isNull = (items.isEmpty && last.isSome) := by
  cases items <;> cases last <;> rfl

/-- An item goes to the end of the chain. -/
theorem chain_set_item (items : List Conjunction) (item : Conjunction) :
    (Avm.chain items none).set (itemPath items.length) item = Avm.chain (items ++ [item]) none := by
  by_cases none : items = []
  · subst none
    rfl
  · have written := set_linked items .none [listHead] item
    have longer : items ++ [item] ≠ [] := by simp
    have whole : [.avm ((Avm.chain items .none).set (itemPath items.length) item)] =
        [Term.avm (Avm.chain (items ++ [item]) .none)] := by
      rw [← set_single _ (item_path_ne_nil _), chain_linked none, chain_linked longer, linked_append,
        itemPath, ← tailPath]
      exact congrArg (·.getD []) written
    exact Term.avm.inj (List.singleton_inj.mp whole)

/-- What ends a list becomes the last link. -/
theorem chain_set_end {items : List Conjunction} (nonempty : items ≠ []) (last : Conjunction) :
    (Avm.chain items none).set (tailPath items.length) last = Avm.chain items (some last) := by
  have written := set_linked items none [] last
  rw [List.append_nil] at written
  have tail : tailPath items.length ≠ [] := by simp [tailPath, nonempty]
  have whole : [.avm ((Avm.chain items none).set (tailPath items.length) last)] =
      [Term.avm (Avm.chain items (some last))] := by
    rw [← set_single _ tail, chain_linked nonempty, chain_linked nonempty]
    exact congrArg (·.getD []) written
  exact Term.avm.inj (List.singleton_inj.mp whole)

theorem filterMap_range_getElem (l : List α) :
    (List.range l.length).filterMap (fun index => l[index]?) = l := by
  induction l with
  | nil => rfl
  | cons a rest ih =>
    simp only [List.length_cons, List.range_succ_eq_map, List.filterMap_cons, List.getElem?_cons_zero,
      List.filterMap_map]
    exact congrArg _ ih

namespace ConsList

/-- The list with these items, which is closed if it has an end. -/
def holding (items : List Conjunction) (last : Option Conjunction) : ConsList :=
  { avm := .chain items last
    lastPath := (tailPath items.length).text
    length := items.length
    terminated := last.isSome }

theorem push_holding (items : List Conjunction) (item : Conjunction) :
    (holding items none).push item = holding (items ++ [item]) none := by
  have longer : (items ++ [item]).length = items.length + 1 := by simp
  simp only [push, holding, chain_set_item, longer, Option.isSome_none]

theorem finish_holding (items : List Conjunction) {last : Conjunction}
    (stops : ListEnd.of last ≠ .open) :
    (holding items none).finish last = holding items (some last) := by
  rw [finish_closed _ stops]
  by_cases none : items = []
  · subst none
    rfl
  · have some : items.length ≠ 0 := by simpa using none
    simp only [holding, if_neg some, of_text_tail_path some, chain_set_end none, Option.isSome_some]

/-- Items that are added in turn are held. -/
theorem foldl_push (items : List Conjunction) : items.foldl push .empty = holding items none := by
  induction items using List.reverseRecOn with
  | nil => rfl
  | append_singleton items item ih =>
    rw [List.foldl_append, ih, List.foldl_cons, List.foldl_nil, push_holding]

/-- A list is made to hold its items and its end; an open end is left out. -/
theorem of_items (items : List Conjunction) (last : Conjunction) :
    ofItems items last = holding items (if ListEnd.of last = .open then none else some last) := by
  rw [ofItems, foldl_push]
  by_cases stays : ListEnd.of last = .open
  · rw [finish_open _ stays, if_pos stays]
  · rw [finish_holding items stays, if_neg stays]

theorem values_holding (items : List Conjunction) (last : Option Conjunction) :
    (holding items last).values = items := by
  by_cases none : items = []
  · subst none
    rfl
  · calc (List.range items.length).filterMap _
      _ = (List.range items.length).filterMap fun index => items[index]? := by
        apply List.filterMap_congr
        intro index inside
        rw [← get_single _ (item_path_ne_nil index), holding, chain_linked none]
        exact get_item_linked _ (List.mem_range.mp inside)
      _ = items := filterMap_range_getElem items

/-- What ends a list is found after its last item. -/
theorem get_end_holding {items : List Conjunction} (nonempty : items ≠ []) (last : Conjunction) :
    (holding items (some last)).avm.get? (Path.ofText (holding items (some last)).lastPath) =
      some last := by
  have some : items.length ≠ 0 := by simpa using nonempty
  have tail : tailPath items.length ≠ [] := by simp [tailPath, nonempty]
  rw [holding, of_text_tail_path some, ← get_single _ tail, chain_linked nonempty]
  exact get_end_linked items last

end ConsList

section Lists

variable {items : List Conjunction} {last : Conjunction}

theorem length_of_items : (ConsList.ofItems items last).length = items.length := by
  rw [ConsList.of_items, ConsList.holding]

theorem doc_of_items (items : List Conjunction) (last : Conjunction) :
    (ConsList.ofItems items last).avm.doc = none := by
  rw [ConsList.of_items]
  exact doc_chain ..

theorem terminated_pushed (items : List Conjunction) :
    (items.foldl ConsList.push .empty).terminated = false := by
  rw [ConsList.foldl_push, ConsList.holding, Option.isSome_none]

/-- The items of a list are those it is made of. -/
theorem ofItems_values : (ConsList.ofItems items last).values = items := by
  rw [ConsList.of_items, ConsList.values_holding]

/-- What ends a list is found after its last item, unless the list is open. -/
theorem ofItems_tail (nonempty : items ≠ []) (stops : ListEnd.of last ≠ .open) :
    (ConsList.ofItems items last).avm.get? (Path.ofText (ConsList.ofItems items last).lastPath) =
      some last := by
  rw [ConsList.of_items, if_neg stops]
  exact ConsList.get_end_holding nonempty last

/-- Nothing else is ever found there. -/
theorem eq_last_of_ofItems_tail {value : Conjunction}
    (found : (ConsList.ofItems items last).avm.get? (Path.ofText (ConsList.ofItems items last).lastPath) =
      some value) : value = last := by
  by_cases none : items = []
  · subst none
    have nothing (path : Path) (last : Option Conjunction) : (Avm.chain [] last).get? path = .none := by
      cases path <;> cases last <;> rfl
    rw [ConsList.of_items, ConsList.holding, nothing] at found
    cases found
  · by_cases stays : ListEnd.of last = .open
    · have some : items.length ≠ 0 := by simpa using none
      have tail : tailPath items.length ≠ [] := by simp [tailPath, none]
      rw [ConsList.of_items, if_pos stays, ConsList.holding, of_text_tail_path some, ← get_single _ tail,
        chain_linked none, get_open_linked none] at found
      cases found
    · rw [ofItems_tail none stays] at found
      exact (Option.some.inj found).symm

/-! ## Difference lists -/

private theorem foldl_items (items : List Conjunction) :
    items.zipIdx.foldl (fun (a : Avm) (value, index) => a.set (diffListChain :: itemPath index) value)
        .empty =
      { features := some (featureIf diffListChain (linked items none)), doc := none } := by
  induction items using List.reverseRecOn with
  | nil => rfl
  | append_singleton items item ih =>
    have written := set_linked items none [listHead] item
    rw [List.zipIdx_append, List.foldl_append, ih, linked_append]
    simp only [List.zipIdx_singleton, List.foldl_cons, List.foldl_nil, Nat.zero_add, Avm.set, Avm.update,
      Avm.entries, Option.getD_some, update_feature_if]
    have last : linked [item] none = some (Conjunction.set [] [listHead] item) := rfl
    rw [last, ← Option.getD_none (a := []), ← written]
    rfl

/-- A difference list is the chain of its items and a feature for its end. -/
theorem avm_of_values (items : List Conjunction) :
    (DiffList.ofValues items).avm =
      { features := some (featureIf diffListChain (linked items (some DiffList.openEnd)) ++
          [(diffListLast, DiffList.openEnd)])
        doc := none } := by
  have differ : diffListChain ≠ diffListLast := by decide
  have ended := set_linked items none [] DiffList.openEnd
  rw [List.append_nil] at ended
  rw [DiffList.ofValues, foldl_items]
  simp only [Avm.set, Avm.update, Avm.entries, Option.getD_some, update_feature_if, Features.update,
    if_neg differ]
  have chain : linked items (some DiffList.openEnd) =
      linked items (some (Conjunction.set [] [] DiffList.openEnd)) := rfl
  rw [chain, ← Option.getD_none (a := ([] : Conjunction)), ← ended]
  rfl

/-- The chain of a difference list is a value, even if there are no items. -/
theorem features_of_values (items : List Conjunction) :
    (DiffList.ofValues items).avm.features =
      some [ (diffListChain, (linked items (some DiffList.openEnd)).getD [])
           , (diffListLast, DiffList.openEnd) ] := by
  obtain ⟨chain, more⟩ := linked_some items DiffList.openEnd
  rw [avm_of_values, more]
  rfl

theorem get_chain_of_values (items : List Conjunction) (path : Path) :
    (DiffList.ofValues items).avm.get? (diffListChain :: path) =
      Conjunction.get? ((linked items (some DiffList.openEnd)).getD []) path := by
  rw [Avm.get?, Avm.entries, features_of_values]
  simp

theorem get_last_of_values (items : List Conjunction) :
    (DiffList.ofValues items).avm.get? [diffListLast] = some DiffList.openEnd := by
  have differ : (diffListLast == diffListChain) = false := by decide
  rw [Avm.get?, Avm.entries, features_of_values]
  simp [List.lookup_cons, differ, Conjunction.get?]

theorem ofValues_values (items : List Conjunction) : (DiffList.ofValues items).values = items := by
  calc (List.range items.length).filterMap _
    _ = (List.range items.length).filterMap fun index => items[index]? := by
      apply List.filterMap_congr
      intro index inside
      rw [get_chain_of_values]
      exact get_item_linked _ (List.mem_range.mp inside)
    _ = items := filterMap_range_getElem items

end Lists

/-! ## Docstrings -/

section Docstrings

variable (doc : Option String)

theorem get_with_doc (a : Avm) (path : Path) : { a with doc }.get? path = a.get? path := by
  cases path <;> rfl

theorem values_with_doc (l : ConsList) : { l with avm := { l.avm with doc } }.values = l.values := by
  simp only [ConsList.values, get_with_doc]

theorem tail_with_doc (l : ConsList) : { l with avm := { l.avm with doc } }.tail? = l.tail? := by
  simp only [ConsList.tail?, get_with_doc]

theorem diff_values_with_doc (l : DiffList) : { l with avm := { l.avm with doc } }.values = l.values := by
  simp only [DiffList.values, get_with_doc]

end Docstrings

end TypeDescription
