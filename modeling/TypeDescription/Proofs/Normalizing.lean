import Mathlib.Data.List.Perm.Basic
import TypeDescription.Proofs.Merging

/-!
What normalising keeps. The depth that bounds it is never reached, since merging makes nothing
deeper; so a conjunction is normalised by merging its AVMs and normalising every value inside it,
without end. Each of these steps leaves the terms that are not merged, the leaves that say
something, and the paths that lead somewhere.
-/

namespace TypeDescription

/-! ## Values of terms -/

theorem Avm.entries_map_values (a : Avm) (change : Conjunction → Conjunction) :
    (a.mapValues change).entries = a.entries.map fun (name, value) => (name, change value) := by
  obtain ⟨_ | entries, doc⟩ := a <;> rfl

theorem Term.avm_map_values (t : Term) (change : Conjunction → Conjunction) :
    (t.mapValues change).avm? = t.avm?.map fun a => a.mapValues change := by
  cases t <;> rfl

theorem mergeable_of_map_values (t : Term) (change : Conjunction → Conjunction) :
    (t.mapValues change).mergeable? = t.mergeable?.map fun a => a.mapValues change := by
  cases t with
  | avm a => obtain ⟨_ | entries, doc⟩ := a <;> rfl
  | _ => rfl

theorem mergeable_map_values (t : Term) (change : Conjunction → Conjunction) :
    (t.mapValues change).mergeable?.isNone = t.mergeable?.isNone := by
  rw [mergeable_of_map_values, Option.isNone_map]

theorem avms_map_values (c : Conjunction) (change : Conjunction → Conjunction) :
    Conjunction.avms (c.map fun t => t.mapValues change) = c.avms.map fun a => a.mapValues change := by
  simp only [Conjunction.avms, List.filterMap_map, List.map_filterMap, Function.comp_def,
    Term.avm_map_values]

/-- Where two changes agree on the values of a term, they change the term in the same way. -/
theorem map_values_congr {t : Term} {change change' : Conjunction → Conjunction}
    (agree : ∀ a ∈ t.avm?, ∀ entry ∈ a.entries, change entry.2 = change' entry.2) :
    t.mapValues change = t.mapValues change' := by
  have avm (a : Avm) (agree : ∀ entry ∈ a.entries, change entry.2 = change' entry.2) :
      a.mapValues change = a.mapValues change' := by
    obtain ⟨_ | entries, doc⟩ := a
    · rfl
    · have same : (entries.map fun entry => (entry.1, change entry.2)) =
          entries.map fun entry => (entry.1, change' entry.2) :=
        List.map_congr_left fun entry member => Prod.ext rfl (agree entry member)
      exact congrArg (fun entries : Features => ({ features := some entries, doc } : Avm)) same
  cases t with
  | avm a => rw [Term.mapValues, Term.mapValues, avm a (agree a rfl)]
  | cons l => rw [Term.mapValues, Term.mapValues, avm l.avm (agree l.avm rfl)]
  | diff l => rw [Term.mapValues, Term.mapValues, avm l.avm (agree l.avm rfl)]
  | type => rfl
  | coreference => rfl

theorem Term.map_values_id (t : Term) : t.mapValues id = t := by
  have avm (a : Avm) : a.mapValues id = a := by
    obtain ⟨_ | entries, doc⟩ := a
    · rfl
    · have kept : (entries.map fun entry => (entry.1, id entry.2)) = entries := List.map_id _
      exact congrArg (fun entries : Features => ({ features := some entries, doc } : Avm)) kept
  cases t with
  | avm a => rw [Term.mapValues, avm]
  | cons l =>
    obtain ⟨a, lastPath, length, terminated⟩ := l
    rw [Term.mapValues, avm]
  | diff l =>
    obtain ⟨a, length⟩ := l
    rw [Term.mapValues, avm]
  | type => rfl
  | coreference => rfl

/-- A term without features is not changed. -/
theorem map_values_of_flat {t : Term} (flat : ∀ a ∈ t.avm?, a.entries = [])
    (change : Conjunction → Conjunction) : t.mapValues change = t := by
  refine (map_values_congr fun a structured entry member => ?_).trans t.map_values_id
  rw [flat a structured] at member
  cases member

/-! ## Depth -/

theorem depth_of_entries_le_iff {entries : Features} {n : Nat} :
    depthOfEntries entries ≤ n ↔ ∀ entry ∈ entries, depthOfTerms entry.2 ≤ n := by
  induction entries with
  | nil => simp [depthOfEntries]
  | cons entry rest ih =>
    rw [depthOfEntries, Nat.max_le, ih, List.forall_mem_cons]

theorem depth_of_terms_le_iff {c : Conjunction} {n : Nat} :
    depthOfTerms c ≤ n ↔ ∀ t ∈ c, t.depth ≤ n := by
  induction c with
  | nil => simp [depthOfTerms]
  | cons t rest ih => rw [depthOfTerms, Nat.max_le, ih, List.forall_mem_cons]

/-- A structured term is one deeper than its values. -/
theorem depth_of_structured {t : Term} {a : Avm} (structured : t.avm? = some a) :
    t.depth = depthOfEntries a.entries + 1 := by
  obtain ⟨_ | entries, doc⟩ := a
  all_goals
    cases t with
    | avm b => cases structured; rfl
    | cons l => obtain ⟨b, lastPath, length, terminated⟩ := l; cases structured; rfl
    | diff l => obtain ⟨b, length⟩ := l; cases structured; rfl
    | type => cases structured
    | coreference => cases structured

theorem depth_of_unstructured {t : Term} (plain : t.avm? = none) : t.depth = 0 := by
  cases t <;> first | rfl | cases plain

theorem depth_le_zero_iff {c : Conjunction} : depthOfTerms c ≤ 0 ↔ ∀ t ∈ c, t.avm? = none := by
  rw [depth_of_terms_le_iff]
  refine forall_congr' fun t => forall_congr' fun _ => ?_
  cases structured : t.avm? with
  | none => simp [depth_of_unstructured structured]
  | some a => simp [depth_of_structured structured]

theorem depth_le_succ_iff {c : Conjunction} {n : Nat} :
    depthOfTerms c ≤ n + 1 ↔ ∀ a ∈ c.avms, ∀ entry ∈ a.entries, depthOfTerms entry.2 ≤ n := by
  rw [depth_of_terms_le_iff]
  constructor
  · intro bound a member
    obtain ⟨t, inside, structured⟩ := List.mem_filterMap.mp member
    have here := bound t inside
    rw [depth_of_structured structured, Nat.succ_le_succ_iff] at here
    exact depth_of_entries_le_iff.mp here
  · intro bound t member
    cases structured : t.avm? with
    | none => simp [depth_of_unstructured structured]
    | some a =>
      rw [depth_of_structured structured, Nat.succ_le_succ_iff]
      exact depth_of_entries_le_iff.mpr (bound a (List.mem_filterMap.mpr ⟨t, member, structured⟩))

theorem avms_eq_nil_iff {c : Conjunction} : c.avms = [] ↔ ∀ t ∈ c, t.avm? = none :=
  List.filterMap_eq_nil_iff

/-- What holds of a conjunction whenever it holds of the values right inside it holds of every conjunction. -/
theorem Conjunction.induct {P : Conjunction → Prop}
    (step : ∀ c : Conjunction, (∀ a ∈ c.avms, ∀ entry ∈ a.entries, P entry.2) → P c) (c : Conjunction) : P c := by
  have bounded (n : Nat) : ∀ c, depthOfTerms c ≤ n → P c := by
    induction n with
    | zero =>
      intro c bound
      refine step c fun a member => ?_
      rw [avms_eq_nil_iff.mpr (depth_le_zero_iff.mp bound)] at member
      cases member
    | succ n ih =>
      intro c bound
      exact step c fun a member entry held => ih entry.2 (depth_le_succ_iff.mp bound a member entry held)
  exact bounded _ c (Nat.le_refl _)

/-- Merging makes no value deeper. -/
theorem depth_merge_avms {c : Conjunction} {n : Nat} (bound : depthOfTerms c ≤ n + 1) :
    depthOfTerms c.mergeAvms ≤ n + 1 := by
  rw [depth_le_succ_iff] at bound ⊢
  have conjoined (c d : Conjunction) (first : depthOfTerms c ≤ n) (second : depthOfTerms d ≤ n) :
      depthOfTerms (c ++ d) ≤ n := by
    rw [depth_of_terms_le_iff] at first second ⊢
    exact List.forall_mem_append.mpr ⟨first, second⟩
  exact Conjunction.forall_merge_avms (fun a b => forall_merge conjoined a b) bound

namespace Conjunction

/-- Where nothing is structured there is nothing to normalise. -/
theorem normalize_to_of_flat {c : Conjunction} (flat : ∀ t ∈ c, t.avm? = none) (n : Nat) :
    normalizeTo n c = c := by
  cases n with
  | zero => rfl
  | succ n =>
    have unmerged : c.mergeAvms = c := by
      rcases merge_avms_cases c with ⟨same, -⟩ | ⟨before, a, after, rfl, -⟩
      · exact same
      · exact nomatch flat (.avm a) (by simp)
    rw [normalizeTo, unmerged]
    refine (List.map_congr_left fun t member => ?_).trans (List.map_id c)
    exact map_values_of_flat (fun a structured => by rw [flat t member] at structured; cases structured) _

/-- Any depth will do that is not less than that of the conjunction. -/
theorem normalize_to_eq {n m : Nat} {c : Conjunction} (enough : depthOfTerms c ≤ n)
    (enough' : depthOfTerms c ≤ m) : normalizeTo n c = normalizeTo m c := by
  induction n generalizing m c with
  | zero =>
    have flat := depth_le_zero_iff.mp enough
    rw [normalize_to_of_flat flat, normalize_to_of_flat flat]
  | succ n ih =>
    cases m with
    | zero =>
      have flat := depth_le_zero_iff.mp enough'
      rw [normalize_to_of_flat flat, normalize_to_of_flat flat]
    | succ m =>
      have values := depth_le_succ_iff.mp (depth_merge_avms enough)
      have values' := depth_le_succ_iff.mp (depth_merge_avms enough')
      rw [normalizeTo, normalizeTo]
      refine List.map_congr_left fun t member => map_values_congr fun a structured entry inside => ?_
      have here := List.mem_filterMap.mpr ⟨t, member, structured⟩
      exact ih (values a here entry inside) (values' a here entry inside)

/-- To normalise a conjunction is to merge its AVMs and to normalise the values that are left. -/
theorem normalize_eq (c : Conjunction) :
    c.normalize = c.mergeAvms.map fun t => t.mapValues normalize := by
  have deeper : depthOfTerms c ≤ depthOfTerms c + 1 := Nat.le_succ _
  have values := depth_le_succ_iff.mp (depth_merge_avms deeper)
  rw [normalize, normalize_to_eq (Nat.le_refl _) deeper, normalizeTo]
  refine List.map_congr_left fun t member => map_values_congr fun a structured entry inside => ?_
  exact normalize_to_eq (values a (List.mem_filterMap.mpr ⟨t, member, structured⟩) entry inside)
    (Nat.le_refl _)

end Conjunction

/-! ## Leaves -/

/-- A change that leaves what each value says leaves what a term says. -/
theorem solid_map_values {change : Conjunction → Conjunction}
    (keeps : ∀ c, (solid (leavesOfTerms (change c))).Perm (solid (leavesOfTerms c))) (t : Term) :
    (solid (t.mapValues change).leaves).Perm (solid t.leaves) := by
  by_cases flat : ∀ a ∈ t.avm?, a.entries = []
  · rw [map_values_of_flat flat]
  · obtain ⟨a, structured, nonempty⟩ : ∃ a, t.avm? = some a ∧ a.entries ≠ [] := by
      simpa using flat
    have structured' : (t.mapValues change).avm? = some (a.mapValues change) := by
      rw [Term.avm_map_values, structured, Option.map_some]
    have nonempty' : (a.mapValues change).entries ≠ [] := by
      rw [Avm.entries_map_values]
      simpa using nonempty
    rw [leaves_of_structured structured nonempty, leaves_of_structured structured' nonempty',
      Avm.entries_map_values, leaves_of_entries, leaves_of_entries, List.flatMap_map, solid, solid,
      List.filter_flatMap, List.filter_flatMap]
    refine List.Perm.flatMap_left _ fun entry _ => ?_
    rw [List.filter_map, List.filter_map]
    exact (keeps entry.2).map _

namespace Conjunction

theorem solid_normalize_to (n : Nat) (c : Conjunction) :
    (solid (leavesOfTerms (normalizeTo n c))).Perm (solid (leavesOfTerms c)) := by
  induction n generalizing c with
  | zero => exact .refl _
  | succ n ih =>
    refine List.Perm.trans ?_ (solid_leaves_merge_avms c)
    rw [normalizeTo, leaves_of_terms, leaves_of_terms, List.flatMap_map, solid, solid,
      List.filter_flatMap, List.filter_flatMap]
    exact List.Perm.flatMap_left _ fun t _ => solid_map_values ih t

/-- The features of a conjunction, all the way down, are the leaves below its terms. -/
theorem expanded_features_eq (c : Conjunction) :
    c.expandedFeatures = (leavesOfTerms c).filter fun leaf => !leaf.1.isEmpty := by
  have below (entries : Features) :
      (leavesOfEntries entries).filter (fun leaf => !leaf.1.isEmpty) = leavesOfEntries entries := by
    rw [List.filter_eq_self]
    intro leaf member
    obtain ⟨entry, -, inner, -, rfl⟩ := mem_leaves_of_entries.mp member
    rfl
  have each (t : Term) : (t.leaves.filter fun leaf => !leaf.1.isEmpty) =
      t.avm?.toList.flatMap Avm.expandedFeatures := by
    by_cases flat : ∀ a ∈ t.avm?, a.entries = []
    · rw [leaves_of_flat flat]
      cases structured : t.avm? with
      | none => rfl
      | some a => simp [Avm.expandedFeatures, flat a structured, leavesOfEntries]
    · obtain ⟨a, structured, nonempty⟩ : ∃ a, t.avm? = some a ∧ a.entries ≠ [] := by
        simpa using flat
      rw [leaves_of_structured structured nonempty, below, structured, Option.toList_some,
        List.flatMap_singleton, Avm.expandedFeatures]
  rw [expandedFeatures, avms, List.filterMap_eq_flatMap_toList, List.flatMap_assoc, leaves_of_terms,
    List.filter_flatMap]
  exact List.flatMap_congr fun t _ => (each t).symm

/-! ## Paths -/

theorem lookup_map_values (a : Avm) (name : String) (change : Conjunction → Conjunction) :
    (a.mapValues change).entries.lookup name = (a.entries.lookup name).map change := by
  rw [Avm.entries_map_values]
  induction a.entries with
  | nil => rfl
  | cons entry rest ih =>
    rw [List.map_cons, List.lookup_cons, List.lookup_cons, ih]
    cases name == entry.1 <;> rfl

/-- A change that leaves where each value leads leaves where the AVM leads. -/
theorem contains_map_values {a : Avm} {change : Conjunction → Conjunction}
    (keeps : ∀ entry ∈ a.entries, ∀ path, (change entry.2).contains path = Conjunction.contains entry.2 path)
    (name : String) (rest : Path) :
    (a.mapValues change).contains (name :: rest) = a.contains (name :: rest) := by
  rw [Avm.contains_cons, Avm.contains_cons, lookup_map_values]
  cases found : a.entries.lookup name with
  | none => rfl
  | some value => exact keeps (name, value) (mem_of_lookup found) rest

theorem contains_normalize_to (n : Nat) {c : Conjunction} (distinct : ∀ t ∈ c, t.Distinct) (path : Path) :
    (normalizeTo n c).contains path = c.contains path := by
  induction n generalizing c path with
  | zero => rfl
  | succ n ih =>
    cases path with
    | nil => rw [contains_nil, contains_nil]
    | cons name rest =>
      have distinct := distinct_iff.mp distinct
      have distinct' := forall_merge_avms (fun a b => Avm.Distinct.merge) distinct
      rw [← contains_merge_avms distinct, normalizeTo, contains_cons, contains_cons, avms_map_values,
        List.any_map, Bool.eq_iff_iff, List.any_eq_true, List.any_eq_true]
      refine exists_congr fun a => and_congr_right fun member => Bool.eq_iff_iff.mp ?_
      exact contains_map_values (fun entry inside path => ih ((distinct' a member).values entry inside) path)
        name rest

/-- Normalising keeps what a conjunction means. -/
theorem normalize_keeps_meaning {c : Conjunction} (distinct : ∀ t ∈ c, t.Distinct) :
    (c.normalize.filter fun t => t.mergeable?.isNone) =
        (c.filter fun t => t.mergeable?.isNone).map (fun t => t.mapValues normalize) ∧
      (c.normalize.expandedFeatures.filter fun leaf => !leaf.2.isBlank).Perm
        (c.expandedFeatures.filter fun leaf => !leaf.2.isBlank) ∧
      ∀ path, c.normalize.contains path = c.contains path := by
  refine ⟨?_, ?_, contains_normalize_to _ distinct⟩
  · rw [normalize_eq, List.filter_map, ← filter_merge_avms c]
    simp only [Function.comp_def, mergeable_map_values]
  · have kept := (solid_normalize_to (depthOfTerms c) c).filter fun leaf => !leaf.1.isEmpty
    have swap (leaves : List (Path × Term)) :
        (leaves.filter fun leaf => !leaf.1.isEmpty).filter (fun leaf => !leaf.2.isBlank) =
          (solid leaves).filter fun leaf => !leaf.1.isEmpty := List.filter_comm ..
    rw [expanded_features_eq, expanded_features_eq, swap, swap]
    exact kept

/-- Two plain AVMs that share a feature, and a null AVM and a list between them: the second AVM goes
into the first, and the list and the null AVM stay behind it. -/
theorem normalize_keeps_repeated_feature :
    let first := Avm.ofPaths [(["A"], [.named "x"])]
    let second := Avm.ofPaths [(["A"], [.named "y"]), (["B", "C"], [.named "z"])]
    let list := ConsList.empty.push [.named "item"]
    let c : Conjunction := [.named "t", .avm first, .avm ⟨none, none⟩, .cons list, .avm second]
    (∀ t ∈ c, t.Distinct) ∧
      (c.normalize.filter fun t => t.mergeable?.isNone) = [.named "t", .avm ⟨none, none⟩, .cons list] ∧
      (c.normalize.expandedFeatures.filter fun leaf => !leaf.2.isBlank).Perm
        (c.expandedFeatures.filter fun leaf => !leaf.2.isBlank) ∧
      ∀ path, c.normalize.contains path = c.contains path := by
  intro first second list c
  have named (name : String) : (Term.named name).Distinct :=
    .intro (fun _ structured => nomatch structured) fun _ structured => nomatch structured
  have chain : list.avm = Avm.ofPaths [(itemPath 0, [.named "item"])] := rfl
  have distinct : ∀ t ∈ c, t.Distinct := distinct_iff.mpr <|
    List.forall_mem_cons.mpr ⟨Avm.distinct_of_paths (by simpa using named "x"),
    List.forall_mem_cons.mpr ⟨⟨List.nodup_nil, fun _ member => nomatch member⟩,
    List.forall_mem_cons.mpr ⟨chain ▸ Avm.distinct_of_paths (by simpa using named "item"),
    List.forall_mem_singleton.mpr <|
      Avm.distinct_of_paths (by simpa using And.intro (named "y") (named "z"))⟩⟩⟩
  obtain ⟨others, leaves, paths⟩ := normalize_keeps_meaning distinct
  exact ⟨distinct, others, leaves, paths⟩

end Conjunction

end TypeDescription
