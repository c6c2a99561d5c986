import TypeDescription.Proofs.CoreferenceSets
import TypeDescription.Proofs.NormalForm

/-!
What holds of every AVM that reading makes. All of them come from the empty AVM by setting paths: those
that are written, and those along which the items of a list lie. A property that is kept by setting
names of some sort, and that depends neither on docstrings nor on features that are taken away, holds
of every AVM in a definition that is read, if the identifiers in upper case are of that sort. So no name
stands twice in an AVM, and the names are of that sort themselves: nothing else makes any.
-/

namespace TypeDescription

/-- A property of AVMs that is kept when the value of a feature with such a name is changed. -/
structure KeptByWrites (P : Avm → Prop) (Q : String → Prop) : Prop where
  empty : P .empty
  null : ∀ a, P a → P { a with features := none }
  documented : ∀ a doc, P a → P { a with doc }
  update : ∀ name, Q name → KeptByUpdate P name

/-- The names along the chains of lists are of this sort. -/
def NamesLists (Q : String → Prop) : Prop := ∀ name ∈ [listHead, listTail, diffListChain, diffListLast], Q name

namespace NamesLists

variable {Q : String → Prop} (lists : NamesLists Q)

include lists

theorem tail_path (length : Nat) : ∀ name ∈ tailPath length, Q name := by
  intro name member
  rw [List.eq_of_mem_replicate member]
  exact lists _ (by simp)

theorem item_path (index : Nat) : ∀ name ∈ itemPath index, Q name :=
  List.forall_mem_append.mpr ⟨lists.tail_path index, List.forall_mem_singleton.mpr (lists _ (by simp))⟩

end NamesLists

namespace KeptByWrites

variable {P : Avm → Prop} {Q : String → Prop} (kept : KeptByWrites P Q) (lists : NamesLists Q)

include kept

theorem set {a : Avm} (known : P a) {path : Path} (names : ∀ name ∈ path, Q name) {value : Conjunction}
    (values : ∀ b ∈ value.avms, P b) : P (a.set path value) :=
  forall_set_avm kept.empty (fun name member => kept.update name (names name member)) values known

theorem of_paths {values : List (Path × Conjunction)} (names : ∀ value ∈ values, ∀ name ∈ value.1, Q name)
    (each : ∀ value ∈ values, ∀ b ∈ value.2.avms, P b) : P (Avm.ofPaths values) :=
  of_paths_induction kept.empty
    (fun value member name inside => kept.update name (names value member name inside)) each

theorem of_documented {t : Term} (known : ∀ a ∈ t.avm?, P a) (doc : Option String) :
    ∀ a ∈ (t.withDoc doc).avm?, P a := by
  intro a held
  cases t <;> cases held <;> exact kept.documented _ doc (known _ rfl)

include lists

theorem of_items {items : List Conjunction} {last : Conjunction} (each : ∀ item ∈ items, ∀ b ∈ item.avms, P b)
    (ending : ∀ b ∈ last.avms, P b) : P (ConsList.ofItems items last).avm := by
  have pushed : P (items.foldl ConsList.push .empty).avm :=
    List.foldlRecOn items ConsList.push (motive := fun l => P l.avm) kept.empty
      fun l known item member => kept.set known (lists.item_path l.length) (each item member)
  rw [ConsList.ofItems]
  by_cases stays : ListEnd.of last = .open
  · rwa [finish_open _ stays]
  · rw [finish_closed _ stays]
    simp only
    split
    · exact kept.null _ pushed
    · next some =>
      have nonempty : items ≠ [] := by
        rintro rfl
        exact some rfl
      rw [last_path_pushed nonempty]
      exact kept.set pushed (lists.tail_path _) ending

theorem of_values {values : List Conjunction} (each : ∀ value ∈ values, ∀ b ∈ value.avms, P b) :
    P (DiffList.ofValues values).avm := by
  have chain : Q diffListChain := lists _ (by simp)
  have last : Q diffListLast := lists _ (by simp)
  have openEnd : ∀ b ∈ DiffList.openEnd.avms, P b := List.forall_mem_nil _
  refine kept.set (kept.set ?_ ?_ openEnd) (List.forall_mem_singleton.mpr last) openEnd
  · refine List.foldlRecOn values.zipIdx _ kept.empty fun a known item member => ?_
    exact kept.set known (List.forall_mem_cons.mpr ⟨chain, lists.item_path _⟩)
      (each item.1 (List.fst_mem_of_mem_zipIdx member))
  · exact List.forall_mem_cons.mpr ⟨chain, lists.tail_path _⟩

/-- It holds of every AVM in the value of a phrase, if the upper case of its identifiers is of that sort. -/
theorem of_phrase (p : Phrase) (names : ∀ piece ∈ p.spelling, piece.1 = .identifier → Q (upperCase piece.2)) :
    ∀ a ∈ p.term.avm?, P a := by
  have series {terms : Series Phrase} (all : terms.All fun p => ∀ a ∈ p.term.avm?, P a) :
      ∀ a ∈ (valueOfSeries terms).avms, P a := by
    intro a member
    rw [value_of_series] at member
    obtain ⟨t, inside, structured⟩ := List.mem_filterMap.mp member
    obtain ⟨p, written, rfl⟩ := List.mem_map.mp inside
    exact all p written a structured
  have flat (text : String) : ∀ a ∈ Conjunction.avms [.named text], P a := List.forall_mem_nil _
  refine Phrase.induct_spelled (P := fun p => ∀ a ∈ p.term.avm?, P a) ?_ ?_ ?_ ?_ p names
  · intro kind text doc _ _ a held
    cases kind <;> cases held
  · intro features doc _ each
    rw [Phrase.term, values_of_features]
    refine kept.of_documented (fun a held => ?_) doc
    cases held
    refine kept.of_paths (List.forall_mem_map.mpr fun feature member => ?_)
      (List.forall_mem_map.mpr fun feature member => series (each feature member).2)
    exact List.forall_mem_map.mpr fun name inside => (each feature member).1 name inside rfl
  · intro items ending doc _ each ends
    rw [Phrase.term, values_of_items]
    refine kept.of_documented (fun a held => ?_) doc
    cases held
    have items' : ∀ item ∈ items.map valueOfSeries, ∀ b ∈ item.avms, P b :=
      List.forall_mem_map.mpr fun item member => series (each item member)
    cases ending with
    | closed => exact kept.of_items lists (List.forall_mem_append.mpr ⟨items', List.forall_mem_nil _⟩) (flat _)
    | ellipsis => exact kept.of_items lists (List.forall_mem_append.mpr ⟨items', List.forall_mem_nil _⟩) (flat _)
    | dotted last tail =>
      obtain ⟨inLast, inTail⟩ := ends last tail rfl
      refine kept.of_items lists (List.forall_mem_append.mpr ⟨items', ?_⟩) (series inTail)
      exact List.forall_mem_singleton.mpr (series inLast)
  · intro items doc _ each
    rw [Phrase.term, values_of_items]
    refine kept.of_documented (fun a held => ?_) doc
    cases held
    exact kept.of_values lists (List.forall_mem_map.mpr fun item member => series (each item member))

/-- It holds of every AVM in a definition that is read. -/
theorem of_read {source : Source}
    (names : ∀ t ∈ source.scan.tokens, t.kind = .identifier → Q (upperCase t.text))
    {options : ReadOptions} {d : Definition} (member : d ∈ (source.read options).definitions) :
    ∀ a ∈ d.conjunction.avms, P a := by
  intro a held
  obtain ⟨t, inside, structured⟩ := List.mem_filterMap.mp held
  obtain ⟨p, rfl, spelled⟩ := exists_phrase member inside
  refine kept.of_phrase lists p (fun piece written => ?_) a structured
  obtain ⟨token, inTokens, rfl⟩ := spelled piece written
  exact names token inTokens

end KeptByWrites

/-! ## No name twice -/

theorem Avm.kept_distinct : KeptByWrites Avm.Distinct fun _ => True where
  empty := distinct_empty
  null _ _ := ⟨List.nodup_nil, List.forall_mem_nil _⟩
  documented _ _ distinct := ⟨distinct.names, distinct.values⟩
  update name _ := distinct_kept_by_update name

theorem Conjunction.Reaches.distinct {c d : Conjunction} (reaches : c.Reaches d)
    (distinct : ∀ t ∈ c, t.Distinct) : ∀ t ∈ d, t.Distinct := by
  induction reaches with
  | here => exact distinct
  | inside member entry below ih => exact ih ((distinct_iff.mp distinct _ member).values _ entry)

/-- In a definition that is read, and in every conjunction inside it, a name has one value in each AVM. -/
theorem distinct_of_read {source : Source} {options : ReadOptions} {d : Definition}
    (member : d ∈ (source.read options).definitions) {c : Conjunction} (inside : d.conjunction.Reaches c) :
    ∀ t ∈ c, t.Distinct := by
  have whole := Avm.kept_distinct.of_read (fun _ _ => trivial) (fun _ _ _ => trivial) member
  exact inside.distinct (distinct_iff.mpr whole)

/-! ## Names of a sort -/

/-- All names inside are of this sort. -/
def Conjunction.NamedBy (Q : String → Prop) (c : Conjunction) : Prop :=
  c.Throughout fun d => ∀ a ∈ d.avms, ∀ entry ∈ a.entries, Q entry.1

/-- The names of an AVM, and all names inside it, are of this sort. -/
structure Avm.NamedBy (Q : String → Prop) (a : Avm) : Prop where
  names : ∀ entry ∈ a.entries, Q entry.1
  values : ∀ entry ∈ a.entries, Conjunction.NamedBy Q entry.2

variable {Q : String → Prop}

theorem named_by_iff {c : Conjunction} : c.NamedBy Q ↔ ∀ a ∈ c.avms, a.NamedBy Q := by
  unfold Conjunction.NamedBy
  rw [Conjunction.throughout_iff]
  constructor
  · rintro ⟨names, values⟩ a member
    exact ⟨names a member, values a member⟩
  · intro named
    exact ⟨fun a member => (named a member).names, fun a member => (named a member).values⟩

theorem named_by_update {name : String} (sort : Q name) : KeptByUpdate (Avm.NamedBy Q) name := by
  intro a change named changed
  constructor
  · intro entry member
    have inside : entry.1 ∈ (a.entries.update name change).map (·.1) := List.mem_map_of_mem member
    rw [names_update] at inside
    split at inside
    · obtain ⟨old, held, same⟩ := List.mem_map.mp inside
      exact same ▸ named.names old held
    · rcases List.mem_append.mp inside with before | new
      · obtain ⟨old, held, same⟩ := List.mem_map.mp before
        exact same ▸ named.names old held
      · exact List.mem_singleton.mp new ▸ sort
  · have changed (c : Conjunction) (named : c.NamedBy Q) : (change c).NamedBy Q :=
      named_by_iff.mpr (changed c (named_by_iff.mp named))
    refine forall_update (changed [] ?_) changed named.values
    exact named_by_iff.mpr (List.forall_mem_nil _)

theorem kept_named_by : KeptByWrites (Avm.NamedBy Q) Q where
  empty := ⟨List.forall_mem_nil _, List.forall_mem_nil _⟩
  null _ _ := ⟨List.forall_mem_nil _, List.forall_mem_nil _⟩
  documented _ _ named := ⟨named.names, named.values⟩
  update _ sort := named_by_update sort

end TypeDescription
