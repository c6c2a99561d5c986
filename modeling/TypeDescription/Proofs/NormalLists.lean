import TypeDescription.Proofs.DiffLists
import TypeDescription.Proofs.NormalForm

/-!
Lists in a normal form. Normalising works on the features of a list and knows nothing of its items, but each
link of the chain is one AVM with nothing to merge. So what comes out is the list that holds the
normal forms of the items and of the end.
-/

namespace TypeDescription

/-- Is this term a list? -/
def Term.isList : Term → Bool
  | .cons _ | .diff _ => true
  | _ => false

/-- The lists among the terms, in order. -/
def Conjunction.lists (c : Conjunction) : List Term := c.filter Term.isList

/-- The lists that can be built: from the empty list by calls, or from values and an end. -/
inductive ConsList.Built : ConsList → Prop where
  | empty : Built .empty
  | call {l : ConsList} (c : ListCall) (built : Built l) : Built (l.call c).2
  | ofValues {values : List Conjunction} {last : Conjunction} {l : ConsList}
    (done : ConsList.ofValues values last = .ok l) : Built l

namespace ConsList

/-- However a list was built, it holds some items and an end, if it has one. -/
theorem Built.holds {l : ConsList} (built : l.Built) : ∃ items last, l = holding items last := by
  induction built with
  | empty => exact ⟨[], none, rfl⟩
  | call c built ih =>
    obtain ⟨items, last, rfl⟩ := ih
    cases outcome : ((holding items last).call c).1 with
    | error cause => exact ⟨items, last, call_of_error outcome⟩
    | ok => exact ⟨_, _, (call_holding outcome).2⟩
  | ofValues done =>
    rw [of_values_eq] at done
    split at done
    · cases done
    · exact ⟨_, _, (Except.ok.inj done).symm⟩

end ConsList

/-! ## Chains -/

namespace Conjunction

theorem normalize_single (a : Avm) : normalize [.avm a] = [.avm a.normalize] := by
  have few : (plainAvms [.avm a]).length ≤ 1 := List.length_filterMap_le ..
  rw [normalize_eq, merge_avms_of_one few]
  rfl

/-- A single type name is the normal form of nothing but itself. -/
theorem is_lone_normalize {name : String} {c : Conjunction} : IsLone name c.normalize ↔ IsLone name c := by
  constructor
  · rintro ⟨doc, lone⟩
    have none : c.plainAvms = [] := by
      by_contra some
      obtain ⟨a, joined, -⟩ := normalize_joins some
      rw [lone] at joined
      cases joined
    rw [normalize_eq, merge_avms_of_one (by rw [none]; exact Nat.zero_le 1)] at lone
    obtain ⟨t, rfl, same⟩ := List.map_eq_singleton_iff.mp lone
    cases t with
    | type => exact ⟨doc, congrArg (fun t => [t]) same⟩
    | _ => cases same
  · rintro ⟨doc, rfl⟩
    exact ⟨doc, normalize_to_of_flat (List.forall_mem_singleton.mpr rfl) _⟩

end Conjunction

theorem feature_if_normalize (name : String) (value : Option Conjunction) :
    ((featureIf name value).map fun (name, value) => (name, Conjunction.normalize value)) =
      featureIf name (value.map Conjunction.normalize) := by
  cases value <;> rfl

theorem linked_normalize (items : List Conjunction) (last : Option Conjunction) :
    (linked items last).map Conjunction.normalize =
      linked (items.map Conjunction.normalize) (last.map Conjunction.normalize) := by
  induction items with
  | nil => rfl
  | cons item rest ih =>
    rw [linked, Option.map_some, Conjunction.normalize_single, List.map_cons, linked, ← ih,
      ← feature_if_normalize]
    rfl

theorem Avm.chain_normalize (items : List Conjunction) (last : Option Conjunction) :
    (chain items last).normalize = chain (items.map Conjunction.normalize) (last.map Conjunction.normalize) := by
  cases items with
  | nil => cases last <;> rfl
  | cons item rest =>
    rw [chain, List.map_cons, chain, ← linked_normalize, ← feature_if_normalize]
    rfl

theorem DiffList.of_values_normalize (values : List Conjunction) :
    (Term.diff (ofValues values)).mapValues Conjunction.normalize =
      .diff (ofValues (values.map Conjunction.normalize)) := by
  have ends : Conjunction.normalize openEnd = openEnd :=
    Conjunction.normalize_to_of_flat (List.forall_mem_singleton.mpr rfl) _
  have chain := linked_normalize values (some openEnd)
  rw [Option.map_some, ends] at chain
  have same : (ofValues values).avm.mapValues Conjunction.normalize =
      (ofValues (values.map Conjunction.normalize)).avm := by
    rw [avm_of_values, avm_of_values, ← chain, ← feature_if_normalize]
    simp only [Avm.mapValues, Option.map_some, List.map_append, List.map_cons, List.map_nil, ends]
  show Term.diff ⟨(ofValues values).avm.mapValues Conjunction.normalize, values.length⟩ =
    .diff ⟨(ofValues (values.map Conjunction.normalize)).avm, (values.map Conjunction.normalize).length⟩
  rw [same, List.length_map]

/-! ## Lists -/

theorem map_values_with_doc (doc : Option String) (t : Term) (change : Conjunction → Conjunction) :
    (t.withDoc doc).mapValues change = (t.mapValues change).withDoc doc := by
  cases t <;> rfl

namespace ConsList

variable (items : List Conjunction) (last : Option Conjunction)

theorem holding_normalize :
    (Term.cons (holding items last)).mapValues Conjunction.normalize =
      .cons (holding (items.map Conjunction.normalize) (last.map Conjunction.normalize)) := by
  have same := Avm.chain_normalize items last
  rw [Avm.normalize] at same
  simp only [Term.mapValues, holding, same, List.length_map, Option.isSome_map]

/-- The tail of the list that holds the normal forms is the normal form of the tail. -/
theorem tail_holding_normalize :
    (holding (items.map Conjunction.normalize) (last.map Conjunction.normalize)).tail? =
      (holding items last).tail?.map Conjunction.normalize := by
  ext c
  rw [(holding_behaves _ _).tail, Option.map_eq_some_iff]
  -- A value is a mark exactly if its normal form is one, so the same tails are left out.
  simp only [(holding_behaves _ _).tail, Option.map_eq_some_iff, ne_eq, List.map_eq_nil_iff]
  constructor
  · rintro ⟨⟨value, rfl, rfl⟩, nonempty, noMark⟩
    exact ⟨value, ⟨rfl, nonempty, fun mark => noMark (Conjunction.is_lone_normalize.mpr mark)⟩, rfl⟩
  · rintro ⟨value, ⟨rfl, nonempty, noMark⟩, rfl⟩
    exact ⟨⟨value, rfl, rfl⟩, nonempty, fun mark => noMark (Conjunction.is_lone_normalize.mp mark)⟩

end ConsList

namespace Conjunction

/-- The lists of a normal form are those of the conjunction, with their features normalized. -/
theorem lists_normalize (c : Conjunction) : c.normalize.lists = c.lists.map fun t => t.mapValues normalize := by
  apply filter_normalize
  · intro t list
    cases t <;> first | rfl | cases list
  · intro t
    cases t <;> rfl

/-- Normalising respects lists. A list that was built stays a list of its kind at its place among the lists, as
long as before and closed if it was; it holds the normal forms of its items and of its tail. The end of
a difference list stays open and shared. -/
theorem normalize_respects_lists (c : Conjunction) (index : Nat) (doc : Option String) :
    (∀ l : ConsList, l.Built → c.lists[index]? = some ((Term.cons l).withDoc doc) →
      ∃ l' : ConsList, c.normalize.lists[index]? = some (.cons l') ∧ l'.avm.doc = doc ∧
        l'.length = l.length ∧ l'.terminated = l.terminated ∧
        l'.values = l.values.map normalize ∧ l'.tail? = l.tail?.map normalize) ∧
    ∀ values, c.lists[index]? = some ((Term.diff (.ofValues values)).withDoc doc) →
      ∃ l' : DiffList, c.normalize.lists[index]? = some (.diff l') ∧ l'.avm.doc = doc ∧
        l'.length = values.length ∧ l'.values = values.map normalize ∧
        l'.avm.get? l'.openEndPath = some DiffList.openEnd ∧
        l'.avm.get? [diffListLast] = some DiffList.openEnd := by
  rw [lists_normalize, List.getElem?_map]
  constructor
  · intro l built here
    obtain ⟨items, last, rfl⟩ := built.holds
    rw [here, Option.map_some, map_values_with_doc, ConsList.holding_normalize]
    refine ⟨_, rfl, rfl, ?_, ?_, ?_, ?_⟩
    · exact List.length_map _
    · exact Option.isSome_map
    · rw [values_with_doc, ConsList.values_holding, ConsList.values_holding]
    · rw [tail_with_doc, ConsList.tail_holding_normalize]
  · intro values here
    rw [here, Option.map_some, map_values_with_doc, DiffList.of_values_normalize]
    refine ⟨_, rfl, rfl, ?_, ?_, ?_, ?_⟩
    · exact List.length_map _
    · rw [diff_values_with_doc, ofValues_values]
    · exact (get_with_doc ..).trans (get_open_end_of_values _)
    · exact (get_with_doc ..).trans (get_last_of_values _)

/-- A dotted list and a difference list between two AVMs that are merged. Two more AVMs meet in an item, and one
of them has a feature of the name that leads to the items of a list. -/
theorem normalize_respects_lists_between_avms :
    let x : Avm := ⟨some [("A", [.named "x"])], none⟩
    let y : Avm := ⟨some [("FIRST", [.named "y"]), ("A", [.named "z"])], none⟩
    let item : Conjunction := [.avm x, .named "i", .avm y]
    let met : Conjunction :=
      [.avm ⟨some [("A", [.named "x", .named "z"]), ("FIRST", [.named "y"])], none⟩, .named "i"]
    let l := ConsList.holding [item, [.named "j"]] (some item)
    let d := DiffList.ofValues [[.named "k"], item]
    let c : Conjunction := [.avm x, .cons l, .named "t", (Term.diff d).withDoc (some "doc"), .avm y]
    (ConsList.ofValues [item, [.named "j"]] item = .ok l ∧ l.Built) ∧
      (c.lists[0]? = some ((Term.cons l).withDoc none) ∧
        ∃ l', c.normalize.lists[0]? = some (.cons l') ∧ l'.length = 2 ∧ l'.terminated = true ∧
          l'.values = [met, [.named "j"]] ∧ l'.tail? = some met) ∧
      c.lists[1]? = some ((Term.diff d).withDoc (some "doc")) ∧
        ∃ d', c.normalize.lists[1]? = some (.diff d') ∧ d'.avm.doc = some "doc" ∧ d'.length = 2 ∧
          d'.values = [[.named "k"], met] ∧ d'.avm.get? d'.openEndPath = some DiffList.openEnd := by
  intro x y item met l d c
  have made : ConsList.ofValues [item, [.named "j"]] item = .ok l := by
    rw [ConsList.of_values_eq]
    rfl
  have built : l.Built := .ofValues made
  have first : c.lists[0]? = some ((Term.cons l).withDoc none) := rfl
  have second : c.lists[1]? = some ((Term.diff d).withDoc (some "doc")) := rfl
  obtain ⟨l', here, -, length, closed, values, tail⟩ := (normalize_respects_lists c 0 none).1 l built first
  obtain ⟨d', there, doc, length', values', openEnd, -⟩ := (normalize_respects_lists c 1 (some "doc")).2 _ second
  have ended : l.tail? = some item := by
    have noMark : ¬ IsLone emptyListType item := by simp [IsLone, item]
    exact ((ConsList.holding_behaves _ _).tail item).mpr ⟨rfl, List.cons_ne_nil _ _, noMark⟩
  rw [ended, Option.map_some] at tail
  exact ⟨⟨made, built⟩, ⟨first, l', here, length, closed, values, tail⟩,
    second, d', there, doc, length', values', openEnd⟩

end Conjunction

end TypeDescription
