import Mathlib.Data.List.Nodup
import TypeDescription.Proofs.Invariants
import TypeDescription.Proofs.PathWrites

/-!
The flat views of an AVM. One lists a path for each feature, the other a path for each term without
features; both leave nothing out. Setting the paths of either list, one after the other, makes the
AVM again: for the first list whatever the values are, for the second if the AVM is in normal form
and holds no lists, null AVMs, docstrings of AVMs or empty values.
-/

namespace TypeDescription

/-! ## Names -/

/-- All names inside are names as a text gives them to a path. -/
def Conjunction.Named (c : Conjunction) : Prop :=
  c.Throughout fun d => ∀ a ∈ d.avms, ∀ entry ∈ a.entries, IsPathName entry.1

/-- The names of an AVM, and all names inside it, are names as a text gives them to a path. -/
structure Avm.Named (a : Avm) : Prop where
  names : ∀ entry ∈ a.entries, IsPathName entry.1
  values : ∀ entry ∈ a.entries, Conjunction.Named entry.2

theorem Avm.named_eq : Avm.Named = Avm.NamedBy IsPathName :=
  funext fun _ => propext ⟨fun ⟨names, values⟩ => ⟨names, values⟩, fun ⟨names, values⟩ => ⟨names, values⟩⟩

theorem Avm.kept_named : KeptByWrites Avm.Named IsPathName := named_eq ▸ kept_named_by

theorem named_iff {c : Conjunction} : c.Named ↔ ∀ a ∈ c.avms, a.Named := by
  rw [Avm.named_eq]
  exact named_by_iff

theorem named_of_flat {c : Conjunction} (flat : ∀ t ∈ c, t.avm? = none) : c.Named := by
  rw [named_iff, avms_eq_nil_iff.mpr flat]
  exact List.forall_mem_nil _

theorem path_name_of_text {text name : String} (member : name ∈ Path.ofText text) : IsPathName name := by
  obtain ⟨piece, inside, rfl⟩ := List.mem_map.mp member
  refine ⟨undotted_upper_case ?_, upperCase_upperCase _⟩
  rw [String.toList_ofList]
  exact not_mem_of_mem_split_on inside

namespace Avm

/-- Setting what a text denotes leaves all names as a text gives them to a path. -/
theorem named_set {a : Avm} (named : a.Named) (text : String) {value : Conjunction} (values : value.Named) :
    (a.set (Path.ofText text) value).Named :=
  kept_named.set named (fun _ member => path_name_of_text member) (named_iff.mp values)

end Avm

/-! ## Features -/

namespace Conjunction

/-- The way down through values that are nothing but an AVM with one feature and without a docstring, and
the value at its end. -/
def soleRoute (c : Conjunction) : Path × Conjunction :=
  match c with
  | [.avm ⟨some [(name, value)], none⟩] => (name :: (soleRoute value).1, (soleRoute value).2)
  | c => ([], c)

theorem get_sole_route (c : Conjunction) : c.get? c.soleRoute.1 = some c.soleRoute.2 := by
  fun_induction soleRoute c with
  | case1 name value ih =>
    simpa [get?, avms, Term.avm?, Avm.entries] using ih
  | case2 c other => rfl

theorem set_sole_route (c : Conjunction) : set [] c.soleRoute.1 c.soleRoute.2 = c := by
  fun_induction soleRoute c with
  | case1 name value ih =>
    simp only [set, updateAvm, Avm.update, Avm.empty, Avm.entries, Option.getD_some, Features.update, ih]
  | case2 c other => rfl

theorem sole_route_named {c : Conjunction} (named : c.Named) : ∀ name ∈ c.soleRoute.1, IsPathName name := by
  fun_induction soleRoute c with
  | case1 name value ih =>
    have inside := named_iff.mp named _ List.mem_cons_self
    have entry : (name, value) ∈ [(name, value)] := List.mem_cons_self
    exact List.forall_mem_cons.mpr ⟨inside.names _ entry, ih (inside.values _ entry)⟩
  | case2 c other => exact fun _ member => absurd member List.not_mem_nil

end Conjunction

/-- Every feature is listed once, with its sole route. -/
theorem collapsed_eq_map (entries : Features) :
    Features.collapsed entries = entries.map fun entry =>
      (entry.1 :: (Conjunction.soleRoute entry.2).1, (Conjunction.soleRoute entry.2).2) := by
  fun_induction Features.collapsed entries with
  | case1 => rfl
  | case2 name inner rest first later =>
    have descends : Conjunction.soleRoute [.avm ⟨some [inner], none⟩] =
        (inner.1 :: (Conjunction.soleRoute inner.2).1, (Conjunction.soleRoute inner.2).2) := by
      rw [Conjunction.soleRoute]
    rw [first, later]
    simp [descends]
  | case3 name value rest other later =>
    rw [later, List.map_cons, Conjunction.soleRoute]
    exact fun key last same => other (key, last) same

/-- The list of features is a faithful view of an AVM. -/
theorem Avm.flat_features_faithful {a : Avm} (some : a.isNull = false) (nodup : (a.entries.map (·.1)).Nodup)
    (named : a.Named) :
    let flat := a.flatFeatures.map fun (path, value) => (path.text, value)
    flat.length = a.size ∧ (flat.map (·.1)).Nodup ∧
      (∀ entry ∈ flat, a.get? (Path.ofText entry.1) = Option.some entry.2) ∧
      (ofPaths (flat.map fun (text, value) => (Path.ofText text, value))).features = a.features ∧
      ∀ text value, Conjunction.Named value → (a.set (Path.ofText text) value).Named := by
  intro flat
  let route (entry : String × Conjunction) := Conjunction.soleRoute entry.2
  have shape : flat = a.entries.map fun entry => (Path.text (entry.1 :: (route entry).1), (route entry).2) := by
    show (Features.collapsed a.entries).map _ = _
    rw [collapsed_eq_map, List.map_map]
    rfl
  have back : ∀ entry ∈ a.entries,
      Path.ofText (Path.text (entry.1 :: (route entry).1)) = entry.1 :: (route entry).1 := by
    intro entry member
    refine Path.of_text_text (List.cons_ne_nil _ _) (List.forall_mem_cons.mpr ⟨named.names entry member, ?_⟩)
    exact Conjunction.sole_route_named (named.values entry member)
  refine ⟨?_, ?_, ?_, ?_, fun text value values => named_set named text values⟩
  · rw [shape, List.length_map, size]
  · rw [shape, List.map_map]
    -- The text of a path has the name with which the path begins.
    apply List.Nodup.of_map fun text => (Path.ofText text).headD ""
    rw [List.map_map]
    convert nodup using 1
    refine List.map_congr_left fun entry member => ?_
    simp only [Function.comp_apply, back entry member, List.headD_cons]
  · rw [shape, List.forall_mem_map]
    intro entry member
    rw [back entry member, get?, lookup_of_mem nodup member, Option.bind_some]
    exact Conjunction.get_sole_route entry.2
  · have paths : (flat.map fun (text, value) => (Path.ofText text, value)) =
        a.entries.map fun entry => (entry.1 :: (route entry).1, (route entry).2) := by
      rw [shape, List.map_map]
      exact List.map_congr_left fun entry member => Prod.ext (back entry member) rfl
    rw [paths, of_paths_of_nodup route (fun entry _ => Conjunction.set_sole_route entry.2) nodup]
    obtain ⟨_ | entries, doc⟩ := a
    · cases some
    · rfl

/-- A chain of three names, an AVM with a docstring, which is not gone through, and a list. -/
theorem Avm.flat_features_faithful_past_docstring :
    let documented : Avm := { empty.set (Path.ofText "e") [.named "z"] with doc := some "doc" }
    let list := ConsList.empty.push [.named "item"]
    let a := ((empty.set (Path.ofText "a.b.c") [.named "x", .named "y"]).set
      (Path.ofText "d") [.avm documented]).set (Path.ofText "l") [.cons list]
    let flat := a.flatFeatures.map fun (path, value) => (path.text, value)
    (a.isNull = false ∧ (a.entries.map (·.1)).Nodup ∧ a.Named) ∧
      flat = [("A.B.C", [.named "x", .named "y"]), ("D", [.avm documented]), ("L", [.cons list])] ∧
      a.get? (Path.ofText "A.B.C") = some [.named "x", .named "y"] ∧
      (ofPaths (flat.map fun (text, value) => (Path.ofText text, value))).features = a.features := by
  intro documented list a flat
  have flat_named (name : String) : Conjunction.Named [.named name] := named_of_flat (by simp [Term.named, Term.avm?])
  have inner : documented.Named := by
    obtain ⟨names, values⟩ := named_set kept_named.empty "e" (flat_named "z")
    exact ⟨names, values⟩
  have chain : list.avm.Named := named_set kept_named.empty "first" (flat_named "item")
  have named : a.Named := by
    refine named_set (named_set (named_set kept_named.empty "a.b.c" ?_) "d" ?_) "l" ?_
    · exact named_of_flat (by simp [Term.named, Term.avm?])
    · exact named_iff.mpr (List.forall_mem_singleton.mpr inner)
    · exact named_iff.mpr (List.forall_mem_singleton.mpr chain)
  have nodup : (a.entries.map (·.1)).Nodup := by decide
  have entries : a.entries =
      [("A", [.avm ⟨some [("B", [.avm ⟨some [("C", [.named "x", .named "y"])], none⟩])], none⟩]),
        ("D", [.avm documented]), ("L", [.cons list])] := rfl
  have shape : flat = [("A.B.C", [.named "x", .named "y"]), ("D", [.avm documented]), ("L", [.cons list])] := by
    show (Features.collapsed a.entries).map _ = _
    rw [entries, collapsed_eq_map]
    simp [Conjunction.soleRoute, Path.text, documented]
  have listed : ("A.B.C", [.named "x", .named "y"]) ∈ flat := by
    rw [shape]
    exact List.mem_cons_self
  obtain ⟨-, -, found, again, -⟩ := flat_features_faithful (a := a) rfl nodup named
  exact ⟨⟨rfl, nodup, named⟩, shape, found _ listed, again⟩

/-! ## Terms without features -/

/-- Nothing inside is without terms, and what is structured inside are AVMs without docstrings that are
not null. -/
def Conjunction.OnlyPlain (c : Conjunction) : Prop :=
  c.Throughout fun d => d ≠ [] ∧ ∀ t ∈ d, ∀ a ∈ t.avm?, t = .avm a ∧ a.isNull = false ∧ a.doc = none

theorem Conjunction.only_plain_of_flat {c : Conjunction} (nonempty : c ≠ []) (flat : ∀ t ∈ c, t.avm? = none) :
    c.OnlyPlain := by
  refine throughout_of_flat flat ⟨nonempty, fun t member a structured => ?_⟩
  rw [flat t member] at structured
  cases structured

/-- An AVM may stand among terms that are not structured. -/
theorem Conjunction.only_plain_around (before after : Conjunction) {a : Avm}
    (flat : ∀ t ∈ before ++ after, t.avm? = none) (some : a.isNull = false) (undocumented : a.doc = none)
    (values : ∀ entry ∈ a.entries, OnlyPlain entry.2) : OnlyPlain (before ++ .avm a :: after) := by
  obtain ⟨earlier, later⟩ := List.forall_mem_append.mp flat
  refine throughout_iff.mpr ⟨⟨List.append_ne_nil_of_right_ne_nil before (List.cons_ne_nil _ _), ?_⟩, ?_⟩
  · intro t member b structured
    rcases List.mem_append.mp member with first | second
    · cases (earlier t first).symm.trans structured
    · rcases List.mem_cons.mp second with rfl | last
      · cases structured
        exact ⟨rfl, some, undocumented⟩
      · cases (later t last).symm.trans structured
  · rw [avms_append, avms_avm_cons, avms_eq_nil_iff.mpr earlier, avms_eq_nil_iff.mpr later]
    exact List.forall_mem_singleton.mpr values

/-- Terms are added at their paths, one after the other. -/
def Conjunction.setEach (c : Conjunction) (leaves : List (Path × Term)) : Conjunction :=
  leaves.foldl (fun c leaf => c.set leaf.1 [leaf.2]) c

/-- Terms are added at their paths, one after the other. -/
def Avm.setEach (a : Avm) (leaves : List (Path × Term)) : Avm :=
  leaves.foldl (fun a leaf => a.set leaf.1 [leaf.2]) a

theorem update_update (entries : Features) (name : String) (first second : Conjunction → Conjunction) :
    (entries.update name first).update name second = entries.update name fun old => second (first old) := by
  induction entries with
  | nil => simp [Features.update]
  | cons entry rest ih =>
    obtain ⟨key, value⟩ := entry
    by_cases same : key = name
    · simp [Features.update, same]
    · simp [Features.update, same, ih]

/-- Terms that are added below one feature are added to its value. -/
theorem Avm.set_each_below {leaves : List (Path × Term)} (some : leaves ≠ []) (a : Avm) (name : String) :
    a.setEach (leaves.map fun (path, t) => (name :: path, t)) = a.update name (·.setEach leaves) := by
  induction leaves generalizing a with
  | nil => exact absurd rfl some
  | cons leaf more ih =>
    by_cases none : more = []
    · subst none
      rfl
    · calc (a.update name (·.set leaf.1 [leaf.2])).setEach (more.map fun (path, t) => (name :: path, t))
        _ = (a.update name (·.set leaf.1 [leaf.2])).update name (·.setEach more) := ih none _
        _ = a.update name (·.setEach (leaf :: more)) := by
          unfold update
          simp only [entries, Option.getD_some, update_update]
          rfl

namespace Conjunction

variable {before : Conjunction} {leaves : List (Path × Term)}

theorem set_each_append (c : Conjunction) (first second : List (Path × Term)) :
    c.setEach (first ++ second) = (c.setEach first).setEach second := List.foldl_append

/-- Terms that are added below features of a conjunction are added to its first plain AVM. -/
theorem set_each_last (none : ∀ a, Term.avm a ∉ before) (below : ∀ leaf ∈ leaves, leaf.1 ≠ []) (a : Avm) :
    setEach (before ++ [.avm a]) leaves = before ++ [.avm (a.setEach leaves)] := by
  induction leaves generalizing a with
  | nil => rfl
  | cons leaf more ih =>
    obtain ⟨path, t⟩ := leaf
    obtain ⟨nonempty, later⟩ := List.forall_mem_cons.mp below
    obtain ⟨name, rest, rfl⟩ := List.exists_cons_of_ne_nil nonempty
    have first : set (before ++ [.avm a]) (name :: rest) [t] = before ++ [.avm (a.set (name :: rest) [t])] :=
      update_avm_first none a [] _
    unfold setEach at ih ⊢
    rw [List.foldl_cons, first, ih later]
    rfl

/-- Where there is no plain AVM, they make one. -/
theorem set_each_new (none : ∀ a, Term.avm a ∉ before) (some : leaves ≠ [])
    (below : ∀ leaf ∈ leaves, leaf.1 ≠ []) : setEach before leaves = before ++ [.avm (Avm.empty.setEach leaves)] := by
  obtain ⟨⟨path, t⟩, more, rfl⟩ := List.exists_cons_of_ne_nil some
  obtain ⟨nonempty, later⟩ := List.forall_mem_cons.mp below
  obtain ⟨name, rest, rfl⟩ := List.exists_cons_of_ne_nil nonempty
  have first : set before (name :: rest) [t] = before ++ [.avm (Avm.empty.set (name :: rest) [t])] :=
    update_avm_new none _
  have others := set_each_last none later (Avm.empty.set (name :: rest) [t])
  unfold setEach at others ⊢
  rw [List.foldl_cons, first, others]
  rfl

/-- A conjunction whose values are not empty leads to some term without features. -/
theorem leaves_ne_nil {c : Conjunction} (plain : c.OnlyPlain) : leavesOfTerms c ≠ [] := by
  induction c using Conjunction.induct with
  | step c ih =>
    obtain ⟨⟨nonempty, -⟩, values⟩ := throughout_iff.mp plain
    obtain ⟨t, rest, rfl⟩ := List.exists_cons_of_ne_nil nonempty
    rw [leavesOfTerms]
    apply List.append_ne_nil_of_left_ne_nil
    rcases leaves_cases t with flat | ⟨a, structured, some, shape⟩
    · rw [flat]
      exact List.cons_ne_nil _ _
    · have member : a ∈ avms (t :: rest) := List.mem_filterMap.mpr ⟨t, List.mem_cons_self, structured⟩
      obtain ⟨entry, more, entries⟩ := List.exists_cons_of_ne_nil some
      have held : entry ∈ a.entries := entries ▸ List.mem_cons_self
      rw [shape, entries, leavesOfEntries]
      apply List.append_ne_nil_of_left_ne_nil
      simpa using ih a member entry held (values a member entry held)

/-- The paths of the leaves are made of names as a text gives them to a path. -/
theorem leaves_named {c : Conjunction} (named : c.Named) :
    ∀ leaf ∈ leavesOfTerms c, ∀ name ∈ leaf.1, IsPathName name := by
  induction c using Conjunction.induct with
  | step c ih =>
    intro leaf member
    rw [leaves_of_terms] at member
    obtain ⟨t, inside, member⟩ := List.mem_flatMap.mp member
    rcases leaves_cases t with flat | ⟨a, structured, -, shape⟩
    · rw [flat] at member
      obtain rfl := List.mem_singleton.mp member
      exact fun _ member => absurd member List.not_mem_nil
    · have here : a ∈ avms c := List.mem_filterMap.mpr ⟨t, inside, structured⟩
      rw [shape] at member
      obtain ⟨entry, held, inner, below, rfl⟩ := mem_leaves_of_entries.mp member
      obtain ⟨names, values⟩ := named_iff.mp named a here
      exact List.forall_mem_cons.mpr ⟨names entry held, ih a here entry held (values entry held) inner below⟩

end Conjunction

/-- An AVM is made again from the leaves of its features, if each value is made again from its own. -/
theorem Avm.set_each_leaves {entries : Features} (nodup : (entries.map (·.1)).Nodup)
    (some : ∀ entry ∈ entries, leavesOfTerms entry.2 ≠ [])
    (values : ∀ entry ∈ entries, Conjunction.setEach [] (leavesOfTerms entry.2) = entry.2) :
    empty.setEach (leavesOfEntries entries) = { features := Option.some entries, doc := none } := by
  let holding (entries : Features) : Avm := { features := Option.some entries, doc := none }
  have each : empty.setEach (leavesOfEntries entries) =
      entries.foldl (fun a entry => a.update entry.1 (·.setEach (leavesOfTerms entry.2))) (holding []) := by
    unfold setEach
    rw [leaves_of_entries, List.foldl_flatMap]
    apply List.foldl_ext
    intro a entry member
    exact set_each_below (some entry member) a entry.1
  have written (all : Features) (entry : String × Conjunction) :
      (holding all).update entry.1 (·.setEach (leavesOfTerms entry.2)) =
        holding (all.update entry.1 (·.setEach (leavesOfTerms entry.2))) := rfl
  rw [each, List.foldl_hom holding written,
    foldl_update_of_nodup (fun entry old => old.setEach (leavesOfTerms entry.2)) values nodup]

namespace Conjunction

/-- The terms of a conjunction are made again from their leaves, one after the other: one without features is
its own leaf, and an AVM is the only one, so that its leaves meet no other. -/
theorem set_each_terms {before after : Conjunction} (one : (plainAvms (before ++ after)).length ≤ 1)
    (plain : ∀ t ∈ before ++ after, ∀ a ∈ t.avm?, t = .avm a ∧ a.isNull = false ∧ a.doc = none)
    (made : ∀ a ∈ avms after, a.entries ≠ [] → leavesOfEntries a.entries ≠ [] ∧
      Avm.empty.setEach (leavesOfEntries a.entries) = { features := some a.entries, doc := none }) :
    setEach before (leavesOfTerms after) = before ++ after := by
  induction after generalizing before with
  | nil => exact (List.append_nil before).symm
  | cons t rest ih =>
    have again : setEach before t.leaves = before ++ [t] := by
      rcases leaves_cases t with flat | ⟨a, structured, nonempty, shape⟩
      · rw [flat]
        rfl
      · obtain ⟨rfl, isSome, noDoc⟩ := plain t (by simp) a structured
        obtain ⟨leaves, rebuilt⟩ := made a (by simp [avms, Term.avm?]) nonempty
        have alone : ∀ b, Term.avm b ∉ before := by
          intro b member
          obtain ⟨-, isSome', -⟩ := plain (.avm b) (by simp [member]) b rfl
          have merges : b ∈ plainAvms before :=
            List.mem_filterMap.mpr ⟨.avm b, member, mergeable_eq_some_iff.mpr ⟨rfl, isSome'⟩⟩
          have some := List.length_pos_of_mem merges
          rw [plain_avms_append, plain_avms_cons isSome, List.length_append, List.length_cons] at one
          omega
        have below : ∀ leaf ∈ leavesOfEntries a.entries, leaf.1 ≠ [] := by
          intro leaf member
          obtain ⟨entry, -, inner, -, rfl⟩ := mem_leaves_of_entries.mp member
          exact List.cons_ne_nil _ _
        obtain ⟨_ | entries, doc⟩ := a
        · cases isSome
        · cases noDoc
          rw [shape, set_each_new alone leaves below, rebuilt]
          rfl
    have later : ∀ a ∈ avms rest, a ∈ avms (t :: rest) := by
      intro a member
      obtain ⟨u, inside, structured⟩ := List.mem_filterMap.mp member
      exact List.mem_filterMap.mpr ⟨u, List.mem_cons_of_mem t inside, structured⟩
    rw [leavesOfTerms, set_each_append, again, ih, List.append_assoc, List.singleton_append]
    · rwa [List.append_assoc, List.singleton_append]
    · rwa [List.append_assoc, List.singleton_append]
    · exact fun a member => made a (later a member)

/-- A plain conjunction in normal form is made again from its leaves. -/
theorem set_each_leaves {c : Conjunction} (normal : c.IsNormal) (plain : c.OnlyPlain) (distinct : ∀ t ∈ c, t.Distinct) :
    setEach [] (leavesOfTerms c) = c := by
  induction c using Conjunction.induct with
  | step c ih =>
    obtain ⟨one, normal_values⟩ := throughout_iff.mp normal
    obtain ⟨⟨-, terms⟩, plain_values⟩ := throughout_iff.mp plain
    show setEach [] (leavesOfTerms c) = [] ++ c
    refine set_each_terms one terms fun a member nonempty => ?_
    obtain ⟨nodup, distinct_values⟩ := distinct_iff.mp distinct a member
    constructor
    · obtain ⟨entry, more, entries⟩ := List.exists_cons_of_ne_nil nonempty
      have held : entry ∈ a.entries := entries ▸ List.mem_cons_self
      rw [entries, leavesOfEntries]
      apply List.append_ne_nil_of_left_ne_nil
      simpa using leaves_ne_nil (plain_values a member entry held)
    · apply Avm.set_each_leaves nodup
      · exact fun entry held => leaves_ne_nil (plain_values a member entry held)
      · exact fun entry held => ih a member entry held (normal_values a member entry held)
          (plain_values a member entry held) (distinct_values entry held)

end Conjunction

/-- Nothing of a plain AVM in normal form is lost in the list of its terms without features. -/
theorem Avm.of_paths_expanded_features {a : Avm} (some : a.isNull = false) (normal : a.normalize = a)
    (distinct : a.Distinct) (plain : ∀ entry ∈ a.entries, Conjunction.OnlyPlain entry.2) (named : a.Named) :
    let expanded := a.expandedFeatures.map fun (path, t) => (path.text, t)
    (ofPaths (expanded.map fun (text, t) => (Path.ofText text, [t]))).features = a.features := by
  intro expanded
  have back : (expanded.map fun (text, t) => (Path.ofText text, [t])) =
      a.expandedFeatures.map fun (path, t) => (path, [t]) := by
    rw [List.map_map]
    refine List.map_congr_left fun leaf member => ?_
    obtain ⟨entry, held, inner, below, rfl⟩ := mem_leaves_of_entries.mp member
    have names : ∀ name ∈ entry.1 :: inner.1, IsPathName name :=
      List.forall_mem_cons.mpr ⟨named.names entry held, Conjunction.leaves_named (named.values entry held) inner below⟩
    exact Prod.ext (Path.of_text_text (List.cons_ne_nil _ _) names) rfl
  have rebuilt : ofPaths (a.expandedFeatures.map fun (path, t) => (path, [t])) =
      { features := Option.some a.entries, doc := none } := by
    rw [ofPaths, List.foldl_map]
    apply set_each_leaves distinct.names
    · exact fun entry held => Conjunction.leaves_ne_nil (plain entry held)
    · exact fun entry held => Conjunction.set_each_leaves (normal_values normal entry held) (plain entry held)
        (distinct.values entry held)
  rw [back, rebuilt]
  obtain ⟨_ | entries, doc⟩ := a
  · cases some
  · rfl

/-- Types before and after an AVM, one AVM inside another, and an AVM that is empty. -/
theorem Avm.of_paths_expanded_features_between_types :
    let innermost : Avm := ⟨some [("D", [.named "y"])], none⟩
    let inner : Avm := ⟨some [("B", [.named "x", .coreference "tag" none]), ("C", [.avm innermost])], none⟩
    let a : Avm := ⟨some [("A", [.named "t", .avm inner, .named "u"]), ("E", [.avm empty])], none⟩
    let expanded := a.expandedFeatures.map fun (path, t) => (path.text, t)
    (a.isNull = false ∧ a.normalize = a ∧ a.Distinct ∧ (∀ entry ∈ a.entries, Conjunction.OnlyPlain entry.2) ∧
        a.Named) ∧
      expanded.map (·.1) = ["A", "A.B", "A.B", "A.C.D", "A", "E"] ∧
      (ofPaths (expanded.map fun (text, t) => (Path.ofText text, [t]))).features = a.features := by
  intro innermost inner a expanded
  let writes : List (String × Conjunction) :=
    [("a", [.named "t"]), ("a.b", [.named "x", .coreference "tag" none]), ("a.c.d", [.named "y"]),
      ("a", [.named "u"]), ("e", [.avm empty])]
  have written : a = ofPaths (writes.map fun (text, value) => (Path.ofText text, value)) := rfl
  have values : ∀ write ∈ writes, ∀ b ∈ Conjunction.avms write.2, b = empty := by
    simp [writes, Conjunction.avms, Term.named, Term.avm?]
  have distinct : a.Distinct := by
    rw [written]
    refine distinct_of_paths (List.forall_mem_map.mpr fun write member => distinct_iff.mpr fun b inside => ?_)
    exact values write member b inside ▸ distinct_empty
  have named : a.Named := by
    rw [written]
    refine kept_named.of_paths (List.forall_mem_map.mpr fun write _ name member => path_name_of_text member)
      (List.forall_mem_map.mpr fun write member b inside => ?_)
    exact values write member b inside ▸ kept_named.empty
  have plain : ∀ entry ∈ a.entries, Conjunction.OnlyPlain entry.2 := by
    have leaf : Conjunction.OnlyPlain [.named "y"] :=
      Conjunction.only_plain_of_flat (List.cons_ne_nil _ _) (by simp [Term.named, Term.avm?])
    have tagged : Conjunction.OnlyPlain [.named "x", .coreference "tag" none] :=
      Conjunction.only_plain_of_flat (List.cons_ne_nil _ _) (by simp [Term.named, Term.avm?])
    have below : Conjunction.OnlyPlain [.avm innermost] :=
      Conjunction.only_plain_around [] [] (List.forall_mem_nil _) rfl rfl (List.forall_mem_singleton.mpr leaf)
    refine List.forall_mem_cons.mpr ⟨?_, List.forall_mem_singleton.mpr ?_⟩
    · exact Conjunction.only_plain_around [.named "t"] [.named "u"] (by simp [Term.named, Term.avm?]) rfl rfl
        (List.forall_mem_cons.mpr ⟨tagged, List.forall_mem_singleton.mpr below⟩)
    · exact Conjunction.only_plain_around [] [] (List.forall_mem_nil _) rfl rfl (List.forall_mem_nil _)
  have normal : a.normalize = a := rfl
  exact ⟨⟨rfl, normal, distinct, plain, named⟩, by decide,
    of_paths_expanded_features rfl normal distinct plain named⟩

end TypeDescription
