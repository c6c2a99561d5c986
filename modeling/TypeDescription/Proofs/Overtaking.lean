import TypeDescription.Proofs.Invariants
import TypeDescription.Proofs.PathWrites

/-!
Looking up after normalising. A path that led somewhere still does, but the lookup may go another way: it takes
the first term that has the whole path, and merging can bring a plain AVM in front of the list that was
the first. Unless that happens, the value that is found has all the types and coreferences of the
one that was found before.
-/

namespace TypeDescription

namespace Conjunction

/-! ## Joint values -/

section Joint

variable {before after : List Avm} {a : Avm} {name : String} {value : Conjunction}

theorem joint_of_held (held : a.entries.lookup name = some value) :
    jointValue? name (before ++ a :: after) =
      some ((jointValue? name before).getD [] ++ (value ++ (jointValue? name after).getD [])) := by
  rw [joint_append, jointValue?, held]
  cases jointValue? name before <;> cases jointValue? name after <;> simp [Option.merge]

/-- What is found in the value of the first AVM that has the whole path is found in the joint value, perhaps
with more beside it. -/
theorem get_joint {rest : Path} {w : Conjunction} (passed : before.any (·.contains (name :: rest)) = false)
    (held : a.entries.lookup name = some value) (found : value.get? rest = some w) :
    ∃ joint w', jointValue? name (before ++ a :: after) = some joint ∧ joint.get? rest = some w' ∧
      w.Sublist w' := by
  cases rest with
  | nil =>
    cases found
    refine ⟨_, _, joint_of_held held, rfl, ?_⟩
    exact (List.sublist_append_left value _).trans (List.sublist_append_right ..)
  | cons next more =>
    refine ⟨_, w, joint_of_held held, ?_, .refl w⟩
    have none : get? ((jointValue? name before).getD []) (next :: more) = none := by
      cases earlier : jointValue? name before with
      | none => rfl
      | some c =>
        rw [← contains_joint, earlier] at passed
        exact get_eq_none passed
    rw [get_append, none, get_append, found]
    rfl

end Joint

/-! ## The first term that has a path -/

/-- This term, between these others, is the first that has the whole path. -/
structure IsFirst (c : Conjunction) (path : Path) (before : Conjunction) (t : Term) (after : Conjunction) :
    Prop where
  shape : c = before ++ t :: after
  passed : Conjunction.contains before path = false
  leads : Conjunction.contains [t] path = true

section First

variable {c before after : Conjunction} {t : Term} {name : String} {rest : Path}

theorem get_term (t : Term) (name : String) (rest : Path) :
    get? [t] (name :: rest) = (t.avm?.bind (·.entries.lookup name)).bind (·.get? rest) := by
  rw [get_cons, avms]
  cases structured : t.avm? with
  | none => rw [List.filterMap_cons_none structured]; rfl
  | some a =>
    rw [List.filterMap_cons_some structured, List.filterMap_nil, List.findSome?_singleton]
    rfl

theorem exists_first (leads : c.contains (name :: rest) = true) :
    ∃ before t after, c.IsFirst (name :: rest) before t after := by
  induction c with
  | nil => cases leads
  | cons t after ih =>
    cases here : contains [t] (name :: rest) with
    | true => exact ⟨[], t, after, rfl, rfl, here⟩
    | false =>
      rw [← List.singleton_append, contains_append, here] at leads
      obtain ⟨before, u, later, rfl, passed, found⟩ := ih leads
      refine ⟨t :: before, u, later, rfl, ?_, found⟩
      rw [← List.singleton_append, contains_append, here, passed]
      rfl

/-- A path is looked up in the first term that has it. -/
theorem IsFirst.get_eq (first : c.IsFirst (name :: rest) before t after) :
    c.get? (name :: rest) = get? [t] (name :: rest) := by
  obtain ⟨rfl, passed, leads⟩ := first
  obtain ⟨w, found⟩ := Option.isSome_iff_exists.mp leads
  rw [get_append, get_eq_none passed, ← List.singleton_append, get_append, found]
  rfl

/-! ## Merging -/

/-- Where nothing before the first plain AVM has the path, but some plain AVM has, it is looked up in what they
are merged into. -/
theorem first_after_merging {a : Avm} (none : plainAvms before = []) (some : a.isNull = false)
    (distinct : ∀ t ∈ before ++ .avm a :: after, t.Distinct)
    (passed : Conjunction.contains before (name :: rest) = false)
    (leads : (a :: plainAvms after).any (·.contains (name :: rest)) = true) :
    ∃ b later, (mergeAvms (before ++ .avm a :: after)).IsFirst (name :: rest) before (.avm b) later ∧
      b.entries.lookup name = jointValue? name (plainAvms (before ++ .avm a :: after)) := by
  have met : plainAvms (before ++ .avm a :: after) = a :: plainAvms after := by
    rw [plain_avms_append, none, plain_avms_cons some, List.nil_append]
  have distinct : ∀ b ∈ plainAvms after, b.Distinct := fun b member =>
    distinct_of_plain distinct b (met ▸ List.mem_cons_of_mem a member)
  refine ⟨_, _, ⟨merge_avms_first none some after, passed, ?_⟩, ?_⟩
  · rw [contains_avm_cons, contains_foldl_merge distinct, leads, Bool.true_or]
  · rw [lookup_foldl_merge distinct, met]

theorem IsFirst.merge_plain {a : Avm} (first : c.IsFirst (name :: rest) before (.avm a) after)
    (some : a.isNull = false) (distinct : ∀ t ∈ c, t.Distinct) :
    ∃ earlier b later, c.mergeAvms.IsFirst (name :: rest) earlier (.avm b) later ∧
      b.entries.lookup name = jointValue? name c.plainAvms := by
  obtain ⟨rfl, passed, leads⟩ := first
  have leads : a.contains (name :: rest) = true := by
    rwa [contains_avm_cons, contains_cons, avms, List.filterMap_nil, List.any_nil, Bool.or_false] at leads
  rcases plain_avms_cases before with none | ⟨earlier, b, between, rfl, none, some'⟩
  · exact ⟨before, first_after_merging none some distinct passed (by rw [List.any_cons, leads, Bool.true_or])⟩
  · rw [List.append_assoc, List.cons_append] at distinct ⊢
    rw [contains_append, Bool.or_eq_false_iff] at passed
    refine ⟨earlier, first_after_merging none some' distinct passed.1 ?_⟩
    rw [plain_avms_append, plain_avms_cons some]
    simp [leads]

/-- A list that is the first term with the path stays the first, unless it stands between two plain AVMs of which
the second has the path as well. -/
theorem IsFirst.merge_list (first : c.IsFirst (name :: rest) before t after) (other : t.mergeable? = none)
    (distinct : ∀ t ∈ c, t.Distinct)
    (kept : plainAvms before = [] ∨ (plainAvms after).any (·.contains (name :: rest)) = false) :
    ∃ earlier later, c.mergeAvms.IsFirst (name :: rest) earlier t later := by
  obtain ⟨rfl, passed, leads⟩ := first
  rcases plain_avms_cases before with none | ⟨earlier, a, between, rfl, none, some⟩
  · refine ⟨before, mergeAvms after, ?_, passed, leads⟩
    rw [merge_avms_append none, mergeAvms, other]
  · rw [List.append_assoc, List.cons_append] at distinct ⊢
    have nowhere : (plainAvms after).any (·.contains (name :: rest)) = false := by
      refine kept.resolve_left ?_
      rw [plain_avms_append, plain_avms_cons some]
      simp
    have met : plainAvms (between ++ t :: after) = plainAvms between ++ plainAvms after := by
      rw [plain_avms_append, plain_avms_of_other other]
    have left : otherTerms (between ++ t :: after) = otherTerms between ++ t :: otherTerms after := by
      rw [otherTerms, List.filter_append, List.filter_cons_of_pos (by rw [other]; rfl)]
      rfl
    have later : ∀ b ∈ plainAvms (between ++ t :: after), b.Distinct := fun b member => by
      refine distinct_of_plain distinct b ?_
      rw [plain_avms_append, plain_avms_cons some]
      exact List.mem_append_right _ (List.mem_cons_of_mem a member)
    rw [contains_append, contains_avm_cons, contains_split between] at passed
    simp only [Bool.or_eq_false_iff] at passed
    obtain ⟨before, here, plain, others⟩ := passed
    refine ⟨earlier ++ .avm ((plainAvms (between ++ t :: after)).foldl Avm.merge a) :: otherTerms between,
      otherTerms after, ?_, ?_, leads⟩
    · rw [merge_avms_first none some, left, List.append_assoc, List.cons_append]
    · rw [contains_append, before, contains_avm_cons, others, contains_foldl_merge later, met, List.any_cons,
        List.any_append, here, plain, nowhere]
      rfl

/-! ## Normalising -/

theorem contains_map_values_normalize (distinct : ∀ t ∈ c, t.Distinct) (path : Path) :
    contains (c.map fun t => t.mapValues normalize) path = c.contains path := by
  cases path with
  | nil => rw [contains_nil, contains_nil]
  | cons name rest =>
    rw [contains_cons, contains_cons, avms_map_values, List.any_map, Bool.eq_iff_iff, List.any_eq_true,
      List.any_eq_true]
    refine exists_congr fun a => and_congr_right fun member => Bool.eq_iff_iff.mp ?_
    refine contains_map_values (fun entry inside path => ?_) name rest
    exact contains_normalize_to _ ((distinct_iff.mp distinct a member).values entry inside) path

/-- The first term with a path is the first when it is merged and its values are normalized. -/
theorem IsFirst.normalized (distinct : ∀ t ∈ c, t.Distinct)
    (first : c.mergeAvms.IsFirst (name :: rest) before t after) :
    ∃ earlier later, c.normalize.IsFirst (name :: rest) earlier (t.mapValues normalize) later := by
  have distinct : ∀ t ∈ c.mergeAvms, t.Distinct :=
    distinct_iff.mpr (forall_merge_avms (fun _ _ => Avm.Distinct.merge) (distinct_iff.mp distinct))
  obtain ⟨shape, passed, leads⟩ := first
  rw [shape] at distinct
  refine ⟨before.map fun t => t.mapValues normalize, after.map fun t => t.mapValues normalize, ?_, ?_, ?_⟩
  · rw [normalize_eq, shape, List.map_append, List.map_cons]
  · rw [contains_map_values_normalize (fun u member => distinct u (List.mem_append_left _ member)), passed]
  · have here : ∀ u ∈ [t], u.Distinct :=
      List.forall_mem_singleton.mpr (distinct t (List.mem_append_right _ List.mem_cons_self))
    exact (contains_map_values_normalize here _).trans leads

/-! ## Lists that are overtaken -/

/-- Is a list, at some step of a lookup, overtaken by a plain AVM? The list is the first term that has the path,
and stands between two plain AVMs of which the second has the path as well, so that merging brings the
path in front of the list. -/
def overtaken (c : Conjunction) (path : Path) : Bool :=
  match path with
  | [] => false
  | name :: rest =>
    let before : Conjunction := c.takeWhile fun t => !contains [t] (name :: rest)
    match c.dropWhile fun t => !contains [t] (name :: rest) with
    | [] => false
    | t :: after =>
      match t.mergeable? with
      | some _ => (jointValue? name c.plainAvms).any (overtaken · rest)
      | none =>
        !before.plainAvms.isEmpty && (plainAvms after).any (·.contains (name :: rest)) ||
          (t.avm?.bind (·.entries.lookup name)).any (overtaken · rest)

theorem contains_eq_any (c : Conjunction) (name : String) (rest : Path) :
    c.contains (name :: rest) = c.any fun t => contains [t] (name :: rest) := by
  induction c with
  | nil => rfl
  | cons t more ih => rw [← List.singleton_append, contains_append, ih, List.singleton_append, List.any_cons]

theorem IsFirst.overtaken_eq (first : c.IsFirst (name :: rest) before t after) :
    c.overtaken (name :: rest) =
      match t.mergeable? with
      | some _ => (jointValue? name c.plainAvms).any (overtaken · rest)
      | none =>
        !before.plainAvms.isEmpty && (plainAvms after).any (·.contains (name :: rest)) ||
          (t.avm?.bind (·.entries.lookup name)).any (overtaken · rest) := by
  obtain ⟨rfl, passed, leads⟩ := first
  rw [contains_eq_any, List.any_eq_false] at passed
  have skipped : ∀ u ∈ before, (!contains [u] (name :: rest)) = true :=
    fun u member => by simpa using passed u member
  rw [overtaken, List.takeWhile_append_of_pos skipped, List.dropWhile_append_of_pos skipped]
  simp only [List.takeWhile_cons, List.dropWhile_cons, leads, Bool.not_true, Bool.false_eq_true, ↓reduceIte,
    List.append_nil]

/-- Unless a list is overtaken here, merging leaves the way open to what was found, and more may have been joined
to it. -/
theorem IsFirst.merge {w : Conjunction} (first : c.IsFirst (name :: rest) before t after)
    (distinct : ∀ t ∈ c, t.Distinct) (found : get? [t] (name :: rest) = some w)
    (kept : c.overtaken (name :: rest) = false) :
    ∃ earlier u later value w', c.mergeAvms.IsFirst (name :: rest) earlier u later ∧
      u.avm?.bind (·.entries.lookup name) = some value ∧ value.get? rest = some w' ∧ w.Sublist w' ∧
      (∀ t ∈ value, t.Distinct) ∧ value.overtaken rest = false := by
  rw [first.overtaken_eq] at kept
  rw [get_term] at found
  obtain ⟨value, held, below⟩ := Option.bind_eq_some_iff.mp found
  cases merges : t.mergeable? with
  | some a =>
    obtain ⟨rfl, some⟩ := mergeable_eq_some_iff.mp merges
    -- The joint value has more terms than the one that was found, but the same one is the first.
    obtain ⟨earlier, b, later, first', joined⟩ := first.merge_plain some distinct
    have passed := first.passed
    rw [contains_split, Bool.or_eq_false_iff] at passed
    obtain ⟨joint, w', met, below', more⟩ := get_joint (a := a) passed.1 held below
    rw [← plain_avms_cons some, ← plain_avms_append, ← first.shape] at met
    rw [merges, met] at kept
    have step : c.below? (.shared name) = Option.some joint := met
    exact ⟨earlier, .avm b, later, joint, w', first', joined.trans met, below', more,
      distinct_below distinct step, kept⟩
  | none =>
    rw [merges, held] at kept
    simp only [Option.any_some, Bool.or_eq_false_iff, Bool.and_eq_false_iff] at kept
    obtain ⟨standing, kept⟩ := kept
    have standing : before.plainAvms = [] ∨ (plainAvms after).any (·.contains (name :: rest)) = false := by
      simpa using standing
    obtain ⟨earlier, later, first'⟩ := first.merge_list merges distinct standing
    refine ⟨earlier, t, later, value, w, first', held, below, .refl w, ?_, kept⟩
    obtain ⟨a, structured, held⟩ := Option.bind_eq_some_iff.mp held
    have member : t ∈ c := first.shape ▸ List.mem_append_right before List.mem_cons_self
    obtain ⟨-, values⟩ := distinct t member
    exact values a structured (name, value) (mem_of_lookup held)

theorem get_map_values (t : Term) (name : String) (rest : Path) :
    get? [t.mapValues normalize] (name :: rest) =
      (t.avm?.bind (·.entries.lookup name)).bind fun value => value.normalize.get? rest := by
  rw [get_term, Term.avm_map_values]
  cases t.avm? with
  | none => rfl
  | some a =>
    rw [Option.map_some, Option.bind_some, Option.bind_some, lookup_map_values]
    cases a.entries.lookup name <;> rfl

/-- Unless a list is overtaken, a lookup leads in the normal form to the normal form of what it led to before, with
what has been joined to it. -/
theorem get_normalize {path : Path} {w : Conjunction} (distinct : ∀ t ∈ c, t.Distinct)
    (found : c.get? path = some w) (kept : c.overtaken path = false) :
    ∃ joined : Conjunction, c.normalize.get? path = some joined.normalize ∧ w.Sublist joined := by
  induction path generalizing c w with
  | nil =>
    cases found
    exact ⟨c, rfl, .refl c⟩
  | cons name rest ih =>
    obtain ⟨before, t, after, first⟩ := exists_first (Option.isSome_of_eq_some found)
    rw [first.get_eq] at found
    obtain ⟨_, u, _, value, w', first', held, found', more, distinct', kept'⟩ := first.merge distinct found kept
    obtain ⟨joined, there, again⟩ := ih distinct' found' kept'
    obtain ⟨_, _, first''⟩ := first'.normalized distinct
    refine ⟨joined, ?_, more.trans again⟩
    rw [first''.get_eq, get_map_values, held, Option.bind_some, there]

end First

end Conjunction

/-! ## What is read -/

/-- Normalising what was read leaves every path that leads somewhere. Unless a list is overtaken on the way, all
terms without features that were found there are found again, in the same order. -/
theorem read_get_normalize {source : Source} {options : ReadOptions} {d : Definition}
    (member : d ∈ (source.read options).definitions) {c : Conjunction} (inside : d.conjunction.Reaches c)
    {path : Path} {w : Conjunction} (found : c.get? path = some w) :
    ∃ w', c.normalize.get? path = some w' ∧
      (c.overtaken path = false → (w.filter fun t => t.avm?.isNone).Sublist w') := by
  have distinct := distinct_of_read member inside
  cases kept : c.overtaken path with
  | false =>
    obtain ⟨joined, there, more⟩ := Conjunction.get_normalize distinct found kept
    refine ⟨joined.normalize, there, fun _ => ?_⟩
    calc w.filter (fun t => t.avm?.isNone)
      List.Sublist _ (joined.filter fun t => t.avm?.isNone) := more.filter _
      _ = joined.normalize.filter fun t => t.avm?.isNone := (Conjunction.flat_terms_normalize joined).symm
      List.Sublist _ joined.normalize := List.filter_sublist
  | true =>
    have leads : c.normalize.contains path = true :=
      (Conjunction.contains_normalize_to _ distinct path).trans (Option.isSome_of_eq_some found)
    obtain ⟨w', there⟩ := Option.isSome_iff_exists.mp leads
    exact ⟨w', there, fun kept => nomatch kept⟩

/-- The texts of the types that a path leads to. -/
private def typesAt? (path : Path) (c : Conjunction) : Option (List String) :=
  (c.get? path).map fun w => w.filterMap Term.typeText?

/-- A list that stands before the plain AVMs is not overtaken, though the second of them has the path as well; and
below the feature that they share, what the one says is found before what the other says. -/
theorem read_get_normalize_joined :
    ∃ d ∈ ((Source.ofText
        "t := s & < a > & [ G x & [ H u & \"z\" ] ] & [ G [ H v ], FIRST y ].").read .plain).definitions,
      (∃ w w', d.conjunction.get? ["FIRST"] = some w ∧ w.filterMap Term.typeText? = ["a"] ∧
        d.conjunction.overtaken ["FIRST"] = false ∧
        d.conjunction.normalize.get? ["FIRST"] = some w' ∧ (w.filter fun t => t.avm?.isNone).Sublist w') ∧
      ∃ w w', d.conjunction.get? ["G", "H"] = some w ∧ w.filterMap Term.typeText? = ["u", "z"] ∧
        d.conjunction.overtaken ["G", "H"] = false ∧
        d.conjunction.normalize.get? ["G", "H"] = some w' ∧ (w.filter fun t => t.avm?.isNone).Sublist w' := by
  have shape : ((Source.ofText
        "t := s & < a > & [ G x & [ H u & \"z\" ] ] & [ G [ H v ], FIRST y ].").read .plain).definitions.map
      (fun d => (typesAt? ["FIRST"] d.conjunction, d.conjunction.overtaken ["FIRST"],
        typesAt? ["G", "H"] d.conjunction, d.conjunction.overtaken ["G", "H"])) =
      [(some ["a"], false, some ["u", "z"], false)] := by
    decide +kernel
  obtain ⟨d, only, views⟩ := List.map_eq_singleton_iff.mp shape
  have member := only ▸ List.mem_singleton_self d
  have found {path : Path} {texts : List String} (there : typesAt? path d.conjunction = some texts)
      (kept : d.conjunction.overtaken path = false) :
      ∃ w w', d.conjunction.get? path = some w ∧ w.filterMap Term.typeText? = texts ∧
        d.conjunction.overtaken path = false ∧
        d.conjunction.normalize.get? path = some w' ∧ (w.filter fun t => t.avm?.isNone).Sublist w' := by
    obtain ⟨w, there, types⟩ := Option.map_eq_some_iff.mp there
    obtain ⟨w', there', more⟩ := read_get_normalize member (.here _) there
    exact ⟨w, w', there, types, kept, there', more kept⟩
  simp only [Prod.mk.injEq] at views
  obtain ⟨first, kept, second, kept'⟩ := views
  exact ⟨d, member, found first kept, found second kept'⟩

/-- A plain AVM stands before the list and another one behind it: their features come in front of the list, whose
item is no longer found. -/
theorem read_get_normalize_overtaken :
    ∃ d ∈ ((Source.ofText "t := s & [ X q ] & < a > & [ FIRST y ].").read .plain).definitions,
      ∃ w w', d.conjunction.get? ["FIRST"] = some w ∧ d.conjunction.normalize.get? ["FIRST"] = some w' ∧
        ∃ t ∈ w, t.avm? = none ∧ t ∉ w' := by
  have shape : ((Source.ofText "t := s & [ X q ] & < a > & [ FIRST y ].").read .plain).definitions.map
      (fun d => (typesAt? ["FIRST"] d.conjunction, typesAt? ["FIRST"] d.conjunction.normalize)) =
      [(some ["a"], some ["y"])] := by
    decide +kernel
  obtain ⟨d, only, views⟩ := List.map_eq_singleton_iff.mp shape
  obtain ⟨before, after⟩ := Prod.mk.inj views
  obtain ⟨w, there, types⟩ := Option.map_eq_some_iff.mp before
  obtain ⟨w', there', types'⟩ := Option.map_eq_some_iff.mp after
  obtain ⟨t, inside, isType⟩ := List.mem_filterMap.mp (types ▸ List.mem_singleton_self "a")
  refine ⟨d, only ▸ List.mem_singleton_self d, w, w', there, there', t, inside, ?_, fun again => ?_⟩
  · cases t <;> first | rfl | cases isType
  · have listed : "a" ∈ ["y"] := types' ▸ List.mem_filterMap.mpr ⟨t, again, isType⟩
    exact absurd listed (by decide)

end TypeDescription
