import Mathlib.Data.List.Basic
import TypeDescription.Proofs.Places
import TypeDescription.Term.Normal
import TypeDescription.Term.Views

/-!
Merging the plain AVMs of a conjunction. The first of them takes in the features of the others, and
every other term stays where it is. What each AVM says is found again in the merged one: every term
at its path, and every path that led somewhere.
-/

namespace TypeDescription

/-! ## What merging does -/

theorem mergeable_eq_some_iff {t : Term} {a : Avm} :
    t.mergeable? = some a ↔ t = .avm a ∧ a.isNull = false := by
  constructor
  · intro merges
    fun_cases Term.mergeable? t with
    | case1 b null =>
      rw [Term.mergeable?, if_pos null] at merges
      cases merges
    | case2 b some =>
      rw [Term.mergeable?, if_neg some] at merges
      cases merges
      exact ⟨rfl, by simpa using some⟩
    | case3 t other =>
      rw [Term.mergeable?] at merges
      · cases merges
      · exact other
  · rintro ⟨rfl, some⟩
    rw [Term.mergeable?, some]
    rfl

/-- What other AVMs are merged into is not null. -/
theorem is_null_foldl_merge {a : Avm} (some : a.isNull = false) (others : List Avm) :
    (others.foldl Avm.merge a).isNull = false := by
  induction others generalizing a with
  | nil => exact some
  | cons b rest ih => exact ih rfl

namespace Conjunction

/-- Either there is nothing to merge, or the first plain AVM takes in those after it. -/
theorem merge_avms_cases (c : Conjunction) :
    c.mergeAvms = c ∧ (∀ t ∈ c, t.mergeable? = none) ∨
      ∃ before a after, c = before ++ .avm a :: after ∧ (∀ t ∈ before, t.mergeable? = none) ∧
        a.isNull = false ∧
        c.mergeAvms = before ++ .avm ((after.filterMap (·.mergeable?)).foldl Avm.merge a) ::
          after.filter fun t => t.mergeable?.isNone := by
  induction c with
  | nil => exact .inl ⟨rfl, fun t member => nomatch member⟩
  | cons t rest ih =>
    cases merges : t.mergeable? with
    | some a =>
      obtain ⟨rfl, some⟩ := mergeable_eq_some_iff.mp merges
      refine .inr ⟨[], a, rest, rfl, fun t member => absurd member List.not_mem_nil, some, ?_⟩
      rw [mergeAvms, merges]
      rfl
    | none =>
      rw [mergeAvms, merges]
      rcases ih with ⟨same, none⟩ | ⟨before, a, after, shape, none, some, merged⟩
      · exact .inl ⟨by rw [same], List.forall_mem_cons.mpr ⟨merges, none⟩⟩
      · refine .inr ⟨t :: before, a, after, by rw [shape]; rfl,
          List.forall_mem_cons.mpr ⟨merges, none⟩, some, ?_⟩
        rw [merged]
        rfl

/-- The terms that are not merged stay as they are. -/
theorem filter_merge_avms (c : Conjunction) :
    (c.mergeAvms.filter fun t => t.mergeable?.isNone) = c.filter fun t => t.mergeable?.isNone := by
  rcases merge_avms_cases c with ⟨same, -⟩ | ⟨before, a, after, rfl, -, some, merged⟩
  · rw [same]
  · have kept := mergeable_eq_some_iff.mpr ⟨rfl, some⟩
    have kept' := mergeable_eq_some_iff.mpr
      ⟨rfl, is_null_foldl_merge some (after.filterMap (·.mergeable?))⟩
    rw [merged]
    simp [List.filter_append, kept, kept', List.filter_filter]

/-- Every term is merged or stays. -/
theorem split_perm (c : Conjunction) :
    c.Perm ((c.filterMap (·.mergeable?)).map .avm ++ c.filter fun t => t.mergeable?.isNone) := by
  induction c with
  | nil => exact .refl _
  | cons t rest ih =>
    cases merges : t.mergeable? with
    | some a =>
      obtain ⟨rfl, -⟩ := mergeable_eq_some_iff.mp merges
      rw [List.filterMap_cons_some merges, List.filter_cons_of_neg (by simp [merges])]
      exact ih.cons _
    | none =>
      rw [List.filterMap_cons_none merges, List.filter_cons_of_pos (by simp [merges])]
      exact (ih.cons t).trans List.perm_middle.symm

/-- The AVMs after merging: one of them has taken in others. -/
theorem avms_merge_avms (c : Conjunction) :
    c.mergeAvms.avms = c.avms ∨
      ∃ before a others rest, c.avms.Perm (before ++ a :: (others ++ rest)) ∧
        c.mergeAvms.avms = before ++ others.foldl Avm.merge a :: rest := by
  rcases merge_avms_cases c with ⟨same, -⟩ | ⟨before, a, after, rfl, -, -, merged⟩
  · exact .inl (by rw [same])
  · have split := (split_perm after).filterMap Term.avm?
    have others : ((after.filterMap (·.mergeable?)).map Term.avm).filterMap Term.avm? =
        after.filterMap (·.mergeable?) := by
      rw [List.filterMap_map]
      exact List.filterMap_some
    rw [List.filterMap_append, others] at split
    refine .inr ⟨avms before, a, after.filterMap (·.mergeable?),
      avms (after.filter fun t => t.mergeable?.isNone), ?_, ?_⟩
    · rw [avms, List.filterMap_append]
      exact (split.cons a).append_left _
    · rw [merged, avms, List.filterMap_append]
      rfl

/-- What holds of every AVM of a conjunction, and of what two such AVMs are merged into, holds of
every AVM that is left after merging. -/
theorem forall_merge_avms {P : Avm → Prop} (merged : ∀ a b, P a → P b → P (a.merge b))
    {c : Conjunction} (all : ∀ a ∈ c.avms, P a) : ∀ a ∈ c.mergeAvms.avms, P a := by
  have folded : ∀ others : List Avm, (∀ b ∈ others, P b) → ∀ a, P a → P (others.foldl Avm.merge a) := by
    intro others
    induction others with
    | nil => exact fun _ a here => here
    | cons b rest ih =>
      intro holds a here
      obtain ⟨holdsHere, later⟩ := List.forall_mem_cons.mp holds
      exact ih later _ (merged a b here holdsHere)
  rcases avms_merge_avms c with same | ⟨before, a, others, rest, split, shape⟩
  · rwa [same]
  · have all (b : Avm) (member : b ∈ before ++ a :: (others ++ rest)) : P b :=
      all b (split.mem_iff.mpr member)
    rw [shape]
    refine List.forall_mem_append.mpr ⟨fun b member => all b (by simp [member]),
      List.forall_mem_cons.mpr ⟨?_, fun b member => all b (by simp [member])⟩⟩
    exact folded others (fun b member => all b (by simp [member])) a (all a (by simp))

end Conjunction

/-! ## Values -/

section Values

variable {P : Conjunction → Prop}

/-- What holds of all values still holds when one of them is changed into another such value. -/
theorem forall_update {entries : Features} {name : String} {change : Conjunction → Conjunction}
    (first : P (change [])) (kept : ∀ c, P c → P (change c)) (all : ∀ entry ∈ entries, P entry.2) :
    ∀ entry ∈ entries.update name change, P entry.2 := by
  induction entries with
  | nil => exact List.forall_mem_singleton.mpr first
  | cons entry rest ih =>
    obtain ⟨here, later⟩ := List.forall_mem_cons.mp all
    rw [Features.update]
    split
    · exact List.forall_mem_cons.mpr ⟨kept _ here, later⟩
    · exact List.forall_mem_cons.mpr ⟨here, ih later⟩

/-- Entries, with others conjoined with them one after the other. -/
def Features.conjoin (entries : Features) : Features → Features
  | [] => entries
  | entry :: more => conjoin (entries.update entry.1 (· ++ entry.2)) more

theorem entries_merge (a b : Avm) : (a.merge b).entries = a.entries.conjoin b.entries := by
  have folded (more entries : Features) :
      more.foldl (fun entries entry => entries.update entry.1 (· ++ entry.2)) entries =
        entries.conjoin more := by
    induction more generalizing entries with
    | nil => rfl
    | cons entry rest ih => exact ih _
  exact folded b.entries a.entries

/-- What holds of the values of two AVMs and of conjoined values holds of the values of both. -/
theorem forall_merge (conjoined : ∀ c d, P c → P d → P (c ++ d)) (a b : Avm)
    (all : ∀ entry ∈ a.entries, P entry.2) (all' : ∀ entry ∈ b.entries, P entry.2) :
    ∀ entry ∈ (a.merge b).entries, P entry.2 := by
  rw [entries_merge]
  generalize a.entries = entries at all
  generalize b.entries = more at all'
  induction more generalizing entries with
  | nil => exact all
  | cons entry rest ih =>
    obtain ⟨here, later⟩ := List.forall_mem_cons.mp all'
    exact ih _ (forall_update here (fun c before => conjoined c _ before here) all) later

end Values

section Writing

variable {P : Avm → Prop}

/-- Changing the value of this feature keeps this of an AVM, if the change keeps it of the AVMs of the value. -/
def KeptByUpdate (P : Avm → Prop) (name : String) : Prop :=
  ∀ (a : Avm) (change : Conjunction → Conjunction), P a →
    (∀ c : Conjunction, (∀ b ∈ c.avms, P b) → ∀ b ∈ (change c).avms, P b) → P (a.update name change)

theorem forall_update_avm {c : Conjunction} {change : Avm → Avm} (empty : P .empty)
    (changed : ∀ a, P a → P (change a)) (all : ∀ b ∈ c.avms, P b) : ∀ b ∈ (c.updateAvm change).avms, P b := by
  fun_induction Conjunction.updateAvm c change with
  | case1 => exact List.forall_mem_singleton.mpr (changed _ empty)
  | case2 a rest =>
    obtain ⟨here, later⟩ := List.forall_mem_cons.mp all
    exact List.forall_mem_cons.mpr ⟨changed a here, later⟩
  | case3 t rest other ih =>
    rw [Conjunction.avms] at all ⊢
    cases structured : t.avm? with
    | none =>
      rw [List.filterMap_cons_none structured] at all ⊢
      exact ih all
    | some a =>
      rw [List.filterMap_cons_some structured] at all ⊢
      obtain ⟨here, later⟩ := List.forall_mem_cons.mp all
      exact List.forall_mem_cons.mpr ⟨here, ih later⟩

/-- Setting a path keeps what changing the values of its features keeps. -/
theorem forall_set {path : Path} {value : Conjunction} (empty : P .empty)
    (kept : ∀ name ∈ path, KeptByUpdate P name) (added : ∀ b ∈ value.avms, P b) (c : Conjunction)
    (all : ∀ b ∈ c.avms, P b) : ∀ b ∈ (c.set path value).avms, P b := by
  induction path generalizing c with
  | nil =>
    rw [Conjunction.set, Conjunction.avms, List.filterMap_append]
    exact List.forall_mem_append.mpr ⟨all, added⟩
  | cons name rest ih =>
    obtain ⟨here, later⟩ := List.forall_mem_cons.mp kept
    exact forall_update_avm empty (fun a known => here a _ known (ih later)) all

theorem forall_set_avm {path : Path} {value : Conjunction} (empty : P .empty)
    (kept : ∀ name ∈ path, KeptByUpdate P name) (added : ∀ b ∈ value.avms, P b) {a : Avm} (known : P a) :
    P (a.set path value) := by
  cases path with
  | nil => exact known
  | cons name rest =>
    obtain ⟨here, later⟩ := List.forall_mem_cons.mp kept
    exact here a _ known (forall_set empty later added)

/-- What holds of the empty AVM holds of one made by setting paths, if changing the values of their features
keeps it. -/
theorem of_paths_induction {values : List (Path × Conjunction)} (empty : P .empty)
    (kept : ∀ value ∈ values, ∀ name ∈ value.1, KeptByUpdate P name)
    (added : ∀ value ∈ values, ∀ b ∈ value.2.avms, P b) : P (Avm.ofPaths values) := by
  rw [Avm.ofPaths]
  exact List.foldlRecOn values _ empty fun a known value member =>
    forall_set_avm empty (kept value member) (added value member) known

end Writing

/-! ## Leaves -/

/-- Is this an AVM that has no features, though it is not null? It says nothing, and merging may make
it disappear. -/
def Term.isBlank : Term → Bool
  | .avm ⟨some [], _⟩ => true
  | _ => false

/-- The leaves that say something. -/
def solid (leaves : List (Path × Term)) : List (Path × Term) :=
  leaves.filter fun leaf => !leaf.2.isBlank

theorem solid_append (first second : List (Path × Term)) :
    solid (first ++ second) = solid first ++ solid second := List.filter_append ..

theorem leaves_of_terms (c : Conjunction) : leavesOfTerms c = c.flatMap Term.leaves := by
  induction c with
  | nil => rfl
  | cons t rest ih => rw [leavesOfTerms, ih, List.flatMap_cons]

theorem leaves_of_terms_append (c d : Conjunction) :
    leavesOfTerms (c ++ d) = leavesOfTerms c ++ leavesOfTerms d := by
  simp only [leaves_of_terms, List.flatMap_append]

theorem leaves_of_entries (entries : Features) :
    leavesOfEntries entries =
      entries.flatMap fun (name, value) =>
        (leavesOfTerms value).map fun (path, t) => (name :: path, t) := by
  induction entries with
  | nil => rfl
  | cons entry rest ih => rw [leavesOfEntries, ih, List.flatMap_cons]

/-- A term with features has the leaves of its features. -/
theorem leaves_of_structured {t : Term} {a : Avm} (structured : t.avm? = some a)
    (nonempty : a.entries ≠ []) : t.leaves = leavesOfEntries a.entries := by
  obtain ⟨_ | _ | ⟨entry, entries⟩, doc⟩ := a
  · exact absurd rfl nonempty
  · exact absurd rfl nonempty
  · cases t with
    | avm b => cases structured; rfl
    | cons l => obtain ⟨b, lastPath, length, terminated⟩ := l; cases structured; rfl
    | diff l => obtain ⟨b, length⟩ := l; cases structured; rfl
    | type => cases structured
    | coreference => cases structured

/-- A term without features is a leaf itself. -/
theorem leaves_of_flat {t : Term} (flat : ∀ a ∈ t.avm?, a.entries = []) : t.leaves = [([], t)] := by
  cases t with
  | type => rfl
  | coreference => rfl
  | avm a =>
    obtain ⟨_ | _ | ⟨entry, entries⟩, doc⟩ := a
    · rfl
    · rfl
    · exact nomatch flat _ rfl
  | cons l =>
    obtain ⟨⟨_ | _ | ⟨entry, entries⟩, doc⟩, lastPath, length, terminated⟩ := l
    · rfl
    · rfl
    · exact nomatch flat _ rfl
  | diff l =>
    obtain ⟨⟨_ | _ | ⟨entry, entries⟩, doc⟩, length⟩ := l
    · rfl
    · rfl
    · exact nomatch flat _ rfl

/-- A term is a leaf itself or has features, whose leaves are its own. -/
theorem leaves_cases (t : Term) :
    t.leaves = [([], t)] ∨
      ∃ a, t.avm? = some a ∧ a.entries ≠ [] ∧ t.leaves = leavesOfEntries a.entries := by
  by_cases flat : ∀ a ∈ t.avm?, a.entries = []
  · exact .inl (leaves_of_flat flat)
  · obtain ⟨a, structured, nonempty⟩ : ∃ a, t.avm? = some a ∧ a.entries ≠ [] := by
      simpa using flat
    exact .inr ⟨a, structured, nonempty, leaves_of_structured structured nonempty⟩

/-- A leaf of features lies below one of them. -/
theorem mem_leaves_of_entries {entries : Features} {leaf : Path × Term} :
    leaf ∈ leavesOfEntries entries ↔
      ∃ entry ∈ entries, ∃ inner ∈ leavesOfTerms entry.2, (entry.1 :: inner.1, inner.2) = leaf := by
  rw [leaves_of_entries, List.mem_flatMap]
  exact exists_congr fun entry => and_congr_right fun _ => List.mem_map

/-- What a term says that is merged is what its features say. -/
theorem solid_of_mergeable {t : Term} {a : Avm} (merges : t.mergeable? = some a) :
    solid t.leaves = solid (leavesOfEntries a.entries) := by
  obtain ⟨rfl, some⟩ := mergeable_eq_some_iff.mp merges
  obtain ⟨_ | _ | ⟨entry, entries⟩, doc⟩ := a
  · cases some
  · rfl
  · rfl

theorem leaves_merge (a b : Avm) :
    (leavesOfEntries (a.merge b).entries).Perm
      (leavesOfEntries a.entries ++ leavesOfEntries b.entries) := by
  rw [entries_merge]
  generalize a.entries = entries
  generalize b.entries = more
  induction more generalizing entries with
  | nil => simp [Features.conjoin, leavesOfEntries]
  | cons entry rest ih =>
    obtain ⟨name, value⟩ := entry
    let gather (key : String) (value : Conjunction) : List (Path × Term) :=
      (leavesOfTerms value).map fun (path, t) => (key :: path, t)
    have adds (c : Conjunction) : (gather name (c ++ value)).Perm (gather name c ++ gather name value) := by
      simp only [gather, leaves_of_terms_append, List.map_append, List.Perm.refl]
    have updated : (leavesOfEntries (entries.update name (· ++ value))).Perm
        (leavesOfEntries entries ++ gather name value) := by
      simp only [leaves_of_entries]
      exact flat_map_update gather rfl adds
    rw [Features.conjoin, leavesOfEntries, ← List.append_assoc]
    exact (ih _).trans (updated.append_right _)

theorem leaves_foldl_merge (a : Avm) (others : List Avm) :
    (leavesOfEntries (others.foldl Avm.merge a).entries).Perm
      (leavesOfEntries a.entries ++ others.flatMap fun b => leavesOfEntries b.entries) := by
  induction others generalizing a with
  | nil => simp
  | cons b rest ih =>
    rw [List.foldl_cons, List.flatMap_cons, ← List.append_assoc]
    exact (ih _).trans ((leaves_merge a b).append_right _)

/-- What terms say is said by those that are merged and by the others. -/
private theorem solid_split (c : Conjunction) :
    (solid (leavesOfTerms c)).Perm
      ((c.filterMap (·.mergeable?)).flatMap (fun b => solid (leavesOfEntries b.entries)) ++
        solid (leavesOfTerms (c.filter fun t => t.mergeable?.isNone))) := by
  have merged : (c.filterMap (·.mergeable?)).flatMap (fun b => solid (Term.avm b).leaves) =
      (c.filterMap (·.mergeable?)).flatMap fun b => solid (leavesOfEntries b.entries) := by
    apply List.flatMap_congr
    intro b member
    obtain ⟨t, -, merges⟩ := List.mem_filterMap.mp member
    obtain ⟨rfl, -⟩ := mergeable_eq_some_iff.mp merges
    exact solid_of_mergeable merges
  have split := (c.split_perm.flatMap_right Term.leaves).filter fun leaf => !leaf.2.isBlank
  rw [List.flatMap_append, List.filter_append, List.flatMap_map,
    List.filter_flatMap (l := c.filterMap (·.mergeable?))] at split
  rw [← merged, leaves_of_terms, leaves_of_terms]
  exact split

/-- Merging leaves everything that terms say where it is. -/
theorem solid_leaves_merge_avms (c : Conjunction) :
    (solid (leavesOfTerms c.mergeAvms)).Perm (solid (leavesOfTerms c)) := by
  rcases c.merge_avms_cases with ⟨same, -⟩ | ⟨before, a, after, rfl, -, some, merged⟩
  · rw [same]
  · let others := after.filterMap (·.mergeable?)
    have first := mergeable_eq_some_iff.mpr ⟨rfl, some⟩
    have first' := mergeable_eq_some_iff.mpr ⟨rfl, is_null_foldl_merge some others⟩
    have folded : (solid (leavesOfEntries (others.foldl Avm.merge a).entries)).Perm
        (solid (leavesOfEntries a.entries) ++
          others.flatMap fun b => solid (leavesOfEntries b.entries)) := by
      have kept := (leaves_foldl_merge a others).filter fun leaf => !leaf.2.isBlank
      rwa [List.filter_append, List.filter_flatMap] at kept
    rw [merged, leaves_of_terms_append, leaves_of_terms_append, solid_append, solid_append]
    refine List.Perm.append_left _ ?_
    rw [leavesOfTerms, leavesOfTerms, solid_append, solid_append, solid_of_mergeable first,
      solid_of_mergeable first']
    calc (solid (leavesOfEntries (others.foldl Avm.merge a).entries) ++ _).Perm _ := folded.append_right _
      _ = _ := List.append_assoc ..
      List.Perm _ _ := (solid_split after).symm.append_left _

/-! ## Paths -/

theorem lookup_update (entries : Features) (name key : String) (change : Conjunction → Conjunction) :
    (entries.update name change).lookup key =
      if key = name then some (change ((entries.lookup key).getD [])) else entries.lookup key := by
  induction entries with
  | nil =>
    rw [Features.update, List.lookup_cons, List.lookup_nil]
    by_cases same : key = name
    · simp [same]
    · have differ : (key == name) = false := by simpa using same
      simp [same, differ]
  | cons entry rest ih =>
    obtain ⟨other, value⟩ := entry
    rw [Features.update]
    split
    · next same =>
      subst same
      rw [List.lookup_cons, List.lookup_cons]
      by_cases here : key = other
      · simp [here]
      · have differ : (key == other) = false := by simpa using here
        simp [here, differ]
    · next apart =>
      rw [List.lookup_cons, List.lookup_cons]
      by_cases here : key = other
      · subst here
        simp [apart]
      · have differ : (key == other) = false := by simpa using here
        simp [differ, ih]

namespace Conjunction

theorem contains_nil (c : Conjunction) : c.contains [] = true := by
  rw [contains, get?]
  rfl

/-- A path leads somewhere if it does in one of the AVMs. -/
theorem contains_cons (c : Conjunction) (name : String) (rest : Path) :
    c.contains (name :: rest) = c.avms.any fun a => a.contains (name :: rest) := by
  rw [contains, get?, List.isSome_findSome?]
  rfl

theorem contains_append (c d : Conjunction) (path : Path) :
    Conjunction.contains (c ++ d) path = (c.contains path || d.contains path) := by
  cases path with
  | nil => simp only [contains_nil, Bool.or_true]
  | cons name rest => simp only [contains_cons, avms, List.filterMap_append, List.any_append]

end Conjunction

namespace Avm

theorem contains_cons (a : Avm) (name : String) (rest : Path) :
    a.contains (name :: rest) = (a.entries.lookup name).any fun value => value.contains rest := by
  rw [contains, get?]
  cases a.entries.lookup name <;> rfl

end Avm

/-- In every AVM inside a term a name has one value. -/
inductive Term.Distinct : Term → Prop where
  | intro {t : Term} (names : ∀ a ∈ t.avm?, (a.entries.map (·.1)).Nodup)
    (values : ∀ a ∈ t.avm?, ∀ entry ∈ a.entries, ∀ u ∈ entry.2, Distinct u) : Distinct t

/-- In an AVM and in every AVM inside it a name has one value. -/
structure Avm.Distinct (a : Avm) : Prop where
  names : (a.entries.map (·.1)).Nodup
  values : ∀ entry ∈ a.entries, ∀ t ∈ entry.2, t.Distinct

theorem distinct_iff {c : Conjunction} : (∀ t ∈ c, t.Distinct) ↔ ∀ a ∈ c.avms, a.Distinct := by
  constructor
  · intro distinct a member
    obtain ⟨t, inside, structured⟩ := List.mem_filterMap.mp member
    obtain ⟨names, values⟩ := distinct t inside
    exact ⟨names a structured, values a structured⟩
  · intro distinct t member
    have inside (a : Avm) (structured : t.avm? = some a) : a.Distinct :=
      distinct a (List.mem_filterMap.mpr ⟨t, member, structured⟩)
    exact ⟨fun a structured => (inside a structured).names, fun a structured => (inside a structured).values⟩

theorem names_update (entries : Features) (name : String) (change : Conjunction → Conjunction) :
    (entries.update name change).map (·.1) =
      if name ∈ entries.map (·.1) then entries.map (·.1) else entries.map (·.1) ++ [name] := by
  induction entries with
  | nil => rfl
  | cons entry rest ih =>
    obtain ⟨key, value⟩ := entry
    rw [Features.update]
    split
    · next same => simp [same]
    · next differ =>
      rw [List.map_cons, ih]
      have apart : name ≠ key := fun same => differ same.symm
      by_cases known : name ∈ rest.map (·.1)
      · rw [if_pos known, if_pos (by rw [List.map_cons]; exact List.mem_cons_of_mem _ known),
          List.map_cons]
      · rw [if_neg known, if_neg (by simpa [apart] using known), List.map_cons, List.cons_append]

theorem nodup_update {entries : Features} (nodup : (entries.map (·.1)).Nodup) (name : String)
    (change : Conjunction → Conjunction) : ((entries.update name change).map (·.1)).Nodup := by
  rw [names_update]
  split
  · exact nodup
  · next new =>
    refine List.nodup_append.mpr ⟨nodup, by simp, fun key member other same => ?_⟩
    rw [List.mem_singleton.mp same]
    exact fun same => new (same ▸ member)

theorem Avm.Distinct.merge {a b : Avm} (distinct : a.Distinct) (distinct' : b.Distinct) :
    (a.merge b).Distinct where
  names := by
    rw [entries_merge]
    have nodup := distinct.names
    generalize a.entries = entries at nodup
    generalize b.entries = more
    induction more generalizing entries with
    | nil => exact nodup
    | cons entry rest ih => exact ih _ (nodup_update nodup _ _)
  values := by
    have conjoined (c d : Conjunction) (first : ∀ t ∈ c, t.Distinct) (second : ∀ t ∈ d, t.Distinct) :
        ∀ t ∈ c ++ d, t.Distinct := List.forall_mem_append.mpr ⟨first, second⟩
    exact forall_merge conjoined a b distinct.values distinct'.values

/-- Changing a value gives no name a second one. -/
theorem Avm.Distinct.update {a : Avm} (distinct : a.Distinct) (name : String)
    {change : Conjunction → Conjunction}
    (changed : ∀ c : Conjunction, (∀ t ∈ c, t.Distinct) → ∀ t ∈ change c, t.Distinct) :
    (a.update name change).Distinct where
  names := nodup_update distinct.names name change
  values := forall_update (P := fun c : Conjunction => ∀ t ∈ c, t.Distinct)
    (changed [] fun _ member => nomatch member) changed distinct.values

theorem Avm.distinct_empty : Avm.empty.Distinct where
  names := List.nodup_nil
  values := fun _ member => nomatch member

theorem Term.distinct_avm_iff {a : Avm} : (Term.avm a).Distinct ↔ a.Distinct := by
  have one := distinct_iff (c := [.avm a])
  simpa [Conjunction.avms, Term.avm?] using one

theorem Avm.distinct_kept_by_update (name : String) : KeptByUpdate Avm.Distinct name :=
  fun _ _ distinct changed => distinct.update name fun c known => distinct_iff.mpr (changed c (distinct_iff.mp known))

/-- In the AVM made by setting paths each name has one value. -/
theorem Avm.distinct_of_paths {values : List (Path × Conjunction)}
    (distinct : ∀ value ∈ values, ∀ t ∈ value.2, t.Distinct) : (Avm.ofPaths values).Distinct :=
  of_paths_induction Avm.distinct_empty (fun _ _ name _ => Avm.distinct_kept_by_update name)
    fun value member => distinct_iff.mp (distinct value member)

theorem mem_of_lookup {entries : Features} {name : String} {value : Conjunction}
    (found : entries.lookup name = some value) : (name, value) ∈ entries := by
  obtain ⟨before, after, rfl, -⟩ := List.lookup_eq_some_iff.mp found
  exact List.mem_append_right _ (List.mem_cons_self ..)

theorem lookup_of_mem {entries : Features} {name : String} {value : Conjunction}
    (nodup : (entries.map (·.1)).Nodup) (member : (name, value) ∈ entries) :
    entries.lookup name = some value := by
  obtain ⟨before, after, rfl⟩ := List.append_of_mem member
  refine List.lookup_eq_some_iff.mpr ⟨before, after, rfl, fun entry earlier => ?_⟩
  rw [List.map_append, List.map_cons] at nodup
  have apart := (List.nodup_append.mp nodup).2.2 entry.1 (List.mem_map_of_mem earlier) name (List.mem_cons_self ..)
  simpa using Ne.symm apart

theorem lookup_absent {entries : Features} {name : String} (absent : name ∉ entries.map (·.1)) :
    entries.lookup name = none := by
  rw [List.lookup_eq_none_iff]
  intro entry member
  have apart : name ≠ entry.1 := fun same => absent (List.mem_map.mpr ⟨entry, member, same.symm⟩)
  simpa using apart

theorem lookup_conjoin (entries : Features) {more : Features} (nodup : (more.map (·.1)).Nodup) (name : String) :
    (entries.conjoin more).lookup name =
      Option.merge (· ++ ·) (entries.lookup name) (more.lookup name) := by
  induction more generalizing entries with
  | nil => rw [Features.conjoin, List.lookup_nil, Option.merge_none_right]
  | cons entry rest ih =>
    obtain ⟨key, value⟩ := entry
    obtain ⟨new, nodup⟩ := List.nodup_cons.mp nodup
    rw [Features.conjoin, ih _ nodup, lookup_update]
    by_cases same : name = key
    · subst same
      rw [if_pos rfl, lookup_absent new, List.lookup_cons_self, Option.merge_none_right]
      cases entries.lookup name <;> rfl
    · have differ : (name == key) = false := by simpa using same
      rw [if_neg same, List.lookup_cons, differ]

/-- The value of a feature after merging is the value in the one AVM, conjoined with that in the other. -/
theorem lookup_merge (a : Avm) {b : Avm} (nodup : (b.entries.map (·.1)).Nodup) (name : String) :
    (a.merge b).entries.lookup name =
      Option.merge (· ++ ·) (a.entries.lookup name) (b.entries.lookup name) := by
  rw [entries_merge, lookup_conjoin a.entries nodup]

/-- Merging leads to what either AVM leads to. -/
theorem contains_merge (a : Avm) {b : Avm} (nodup : (b.entries.map (·.1)).Nodup) (name : String)
    (rest : Path) :
    (a.merge b).contains (name :: rest) =
      (a.contains (name :: rest) || b.contains (name :: rest)) := by
  rw [Avm.contains_cons, Avm.contains_cons, Avm.contains_cons, lookup_merge a nodup]
  cases a.entries.lookup name <;> cases b.entries.lookup name <;>
    simp [Option.merge, Conjunction.contains_append]

/-- Merging leaves every path that leads somewhere. -/
theorem contains_merge_avms {c : Conjunction} (distinct : ∀ a ∈ c.avms, a.Distinct) (path : Path) :
    c.mergeAvms.contains path = c.contains path := by
  cases path with
  | nil => rw [Conjunction.contains_nil, Conjunction.contains_nil]
  | cons name rest =>
    have folded : ∀ others : List Avm, (∀ b ∈ others, b.Distinct) → ∀ a : Avm,
        (others.foldl Avm.merge a).contains (name :: rest) =
          (a.contains (name :: rest) || others.any fun b => b.contains (name :: rest)) := by
      intro others
      induction others with
      | nil => exact fun _ a => (Bool.or_false _).symm
      | cons b others ih =>
        intro distinct a
        obtain ⟨here, later⟩ := List.forall_mem_cons.mp distinct
        rw [List.foldl_cons, ih later, contains_merge a here.names, List.any_cons, Bool.or_assoc]
    rw [Conjunction.contains_cons, Conjunction.contains_cons]
    rcases c.avms_merge_avms with same | ⟨before, a, others, left, split, shape⟩
    · rw [same]
    · have merged (b : Avm) (member : b ∈ others) : b.Distinct :=
        distinct b (split.mem_iff.mpr (by simp [member]))
      rw [shape, split.any_eq, List.any_append, List.any_append, List.any_cons, List.any_cons,
        List.any_append, folded others merged a, Bool.or_assoc]

end TypeDescription
