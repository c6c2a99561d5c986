import TypeDescription.Proofs.Normalizing

/-!
The normal form. After normalising, no conjunction at any depth has two plain AVMs to merge, and
there is nothing left to do. What stands at a place of the normal form is the normal form of what
all the AVMs that met there say together; it has one plain AVM if any of them was there, with the
first of their docstrings.
-/

namespace TypeDescription

/-! ## Conjunctions inside conjunctions -/

namespace Conjunction

/-- The plain AVMs that are not null: those that normalising merges. -/
def plainAvms (c : Conjunction) : List Avm := c.filterMap (·.mergeable?)

/-- The terms that normalising does not merge. -/
def otherTerms (c : Conjunction) : Conjunction := c.filter fun t => t.mergeable?.isNone

/-- The conjunctions inside a conjunction, through AVMs and lists, and the conjunction itself. -/
inductive Reaches : Conjunction → Conjunction → Prop where
  | here (c : Conjunction) : Reaches c c
  | inside {c value d : Conjunction} {a : Avm} {name : String} (member : a ∈ c.avms)
    (entry : (name, value) ∈ a.entries) (below : Reaches value d) : Reaches c d

/-- Does this hold of every conjunction inside? -/
def Throughout (P : Conjunction → Prop) (c : Conjunction) : Prop := ∀ d, c.Reaches d → P d

theorem throughout_iff {P : Conjunction → Prop} {c : Conjunction} :
    c.Throughout P ↔ P c ∧ ∀ a ∈ c.avms, ∀ entry ∈ a.entries, Throughout P entry.2 := by
  constructor
  · exact fun all => ⟨all c (.here c), fun a member entry held d below => all d (.inside member held below)⟩
  · rintro ⟨here, values⟩ d (_ | ⟨member, entry, below⟩)
    · exact here
    · exact values _ member _ entry d below

/-- Where nothing is structured, nothing else is inside. -/
theorem throughout_of_flat {P : Conjunction → Prop} {c : Conjunction} (flat : ∀ t ∈ c, t.avm? = none) (here : P c) :
    c.Throughout P := by
  refine throughout_iff.mpr ⟨here, fun a member => ?_⟩
  rw [avms_eq_nil_iff.mpr flat] at member
  cases member

/-- No conjunction inside has two AVMs to merge. -/
def IsNormal (c : Conjunction) : Prop := c.Throughout fun d => d.plainAvms.length ≤ 1

/-! ## Merging once -/

theorem plain_avms_append (c d : Conjunction) : plainAvms (c ++ d) = c.plainAvms ++ d.plainAvms :=
  List.filterMap_append

theorem plain_avms_cons {a : Avm} (some : a.isNull = false) (c : Conjunction) :
    plainAvms (.avm a :: c) = a :: c.plainAvms :=
  List.filterMap_cons_some (mergeable_eq_some_iff.mpr ⟨rfl, some⟩)

theorem plain_avms_of_other {t : Term} (other : t.mergeable? = none) (c : Conjunction) :
    plainAvms (t :: c) = c.plainAvms :=
  List.filterMap_cons_none other

theorem plain_avms_eq_nil_iff {c : Conjunction} : c.plainAvms = [] ↔ ∀ t ∈ c, t.mergeable? = none :=
  List.filterMap_eq_nil_iff

theorem plain_avms_of_others (c : Conjunction) : c.otherTerms.plainAvms = [] :=
  plain_avms_eq_nil_iff.mpr fun _ member => Option.isNone_iff_eq_none.mp (List.mem_filter.mp member).2

/-- Either there is no plain AVM to merge, or there is a first one. -/
theorem plain_avms_cases (c : Conjunction) :
    c.plainAvms = [] ∨
      ∃ before a after, c = before ++ .avm a :: after ∧ plainAvms before = [] ∧ a.isNull = false := by
  rcases merge_avms_cases c with ⟨-, none⟩ | ⟨before, a, after, shape, none, some, -⟩
  · exact .inl (plain_avms_eq_nil_iff.mpr none)
  · exact .inr ⟨before, a, after, shape, plain_avms_eq_nil_iff.mpr none, some⟩

/-- Where there is no plain AVM, every term is another one. -/
theorem other_terms_eq_self {c : Conjunction} (none : c.plainAvms = []) : c.otherTerms = c := by
  refine List.filter_eq_self.mpr fun t member => ?_
  rw [plain_avms_eq_nil_iff.mp none t member]
  rfl

/-- Merging leaves one plain AVM, if there are any. -/
theorem plain_avms_merge_avms (c : Conjunction) :
    c.mergeAvms.plainAvms =
      match c.plainAvms with
      | [] => []
      | a :: others => [others.foldl Avm.merge a] := by
  rcases merge_avms_cases c with ⟨same, none⟩ | ⟨before, a, after, rfl, none, some, merged⟩
  · rw [same, plain_avms_eq_nil_iff.mpr none]
  · have first : plainAvms (before ++ .avm a :: after) = a :: plainAvms after := by
      rw [plain_avms_append, plain_avms_eq_nil_iff.mpr none, plain_avms_cons some, List.nil_append]
    rw [merged, first, plain_avms_append, plain_avms_eq_nil_iff.mpr none,
      plain_avms_cons (is_null_foldl_merge some _), List.nil_append]
    exact congrArg _ (plain_avms_of_others after)

/-- Where there is one plain AVM at most, there is nothing to merge. -/
theorem merge_avms_of_one {c : Conjunction} (one : c.plainAvms.length ≤ 1) : c.mergeAvms = c := by
  rcases merge_avms_cases c with ⟨same, -⟩ | ⟨before, a, after, rfl, -, some, merged⟩
  · exact same
  · rw [plain_avms_append, plain_avms_cons some, List.length_append, List.length_cons] at one
    have none : plainAvms after = [] := List.eq_nil_of_length_eq_zero (by omega)
    rw [merged, ← otherTerms, other_terms_eq_self none]
    exact congrArg (fun rest => before ++ .avm (rest.foldl Avm.merge a) :: after) none

/-- What stands before the plain AVMs is not touched. -/
theorem merge_avms_append {before : Conjunction} (none : before.plainAvms = []) (after : Conjunction) :
    mergeAvms (before ++ after) = before ++ mergeAvms after := by
  rw [plain_avms_eq_nil_iff] at none
  induction before with
  | nil => rfl
  | cons t rest ih =>
    obtain ⟨here, later⟩ := List.forall_mem_cons.mp none
    rw [List.cons_append, mergeAvms, here]
    exact congrArg (t :: ·) (ih later)

/-- The first plain AVM takes in those after it. -/
theorem merge_avms_first {before : Conjunction} (none : before.plainAvms = []) {a : Avm}
    (some : a.isNull = false) (after : Conjunction) :
    mergeAvms (before ++ .avm a :: after) =
      before ++ .avm (after.plainAvms.foldl Avm.merge a) :: after.otherTerms := by
  rw [merge_avms_append none, mergeAvms, mergeable_eq_some_iff.mpr ⟨rfl, some⟩]
  rfl

/-- A path leads somewhere if it does in a plain AVM or in another term. -/
theorem contains_split (c : Conjunction) (name : String) (rest : Path) :
    c.contains (name :: rest) =
      (c.plainAvms.any (·.contains (name :: rest)) || c.otherTerms.contains (name :: rest)) := by
  have avms_of_plain : (c.plainAvms.map Term.avm).filterMap Term.avm? = c.plainAvms := by
    rw [List.filterMap_map]
    exact List.filterMap_some
  have split := (split_perm c).filterMap Term.avm?
  rw [List.filterMap_append, ← plainAvms, avms_of_plain] at split
  rw [contains_cons, contains_cons, avms, split.any_eq, List.any_append]
  rfl

/-! ## The normal form -/

theorem plain_avms_normalize (c : Conjunction) :
    c.normalize.plainAvms = c.mergeAvms.plainAvms.map Avm.normalize := by
  rw [normalize_eq, plainAvms, plainAvms, List.filterMap_map, List.map_filterMap]
  exact List.filterMap_congr fun t _ => mergeable_of_map_values t normalize

theorem plain_avms_normalize_le (c : Conjunction) : c.normalize.plainAvms.length ≤ 1 := by
  rw [plain_avms_normalize, plain_avms_merge_avms, List.length_map]
  cases c.plainAvms with
  | nil => exact Nat.zero_le 1
  | cons => exact Nat.le_refl 1

theorem other_terms_normalize (c : Conjunction) :
    c.normalize.otherTerms = c.otherTerms.map fun t => t.mapValues normalize := by
  rw [normalize_eq, otherTerms, List.filter_map, otherTerms, ← filter_merge_avms c]
  simp only [Function.comp_def, mergeable_map_values]

/-- The terms of a kind that is never merged stay in their order, and only what is inside them is normalized. -/
theorem filter_normalize {kind : Term → Bool} (unmerged : ∀ t, kind t = true → t.mergeable? = none)
    (kept : ∀ t, kind (t.mapValues normalize) = kind t) (c : Conjunction) :
    c.normalize.filter kind = (c.filter kind).map fun t => t.mapValues normalize := by
  have among (c : Conjunction) : c.otherTerms.filter kind = c.filter kind := by
    rw [otherTerms, List.filter_filter]
    refine List.filter_congr fun t _ => ?_
    cases here : kind t with
    | false => rfl
    | true => rw [unmerged t here]; rfl
  rw [← among c.normalize, other_terms_normalize, List.filter_map, ← among c]
  simp only [Function.comp_def, kept]

/-- What has no features is left as it is. -/
theorem flat_terms_normalize (c : Conjunction) :
    (c.normalize.filter fun t => t.avm?.isNone) = c.filter fun t => t.avm?.isNone := by
  rw [filter_normalize]
  · refine (List.map_congr_left fun t member => ?_).trans (List.map_id _)
    have flat : t.avm? = none := Option.isNone_iff_eq_none.mp (List.mem_filter.mp member).2
    exact map_values_of_flat (fun a structured => by rw [flat] at structured; cases structured) _
  · intro t flat
    cases t <;> first | rfl | cases flat
  · intro t
    rw [Term.avm_map_values, Option.isNone_map]

/-- A value in the normal form is the normal form of a value that is left after merging. -/
theorem exists_value_of_normalize {c value : Conjunction} {a : Avm} {name : String}
    (member : a ∈ c.normalize.avms) (entry : (name, value) ∈ a.entries) :
    ∃ b ∈ c.mergeAvms.avms, ∃ old, (name, old) ∈ b.entries ∧ value = old.normalize := by
  rw [normalize_eq, avms_map_values] at member
  obtain ⟨b, inside, rfl⟩ := List.mem_map.mp member
  rw [Avm.entries_map_values] at entry
  obtain ⟨⟨key, old⟩, kept, same⟩ := List.mem_map.mp entry
  cases same
  exact ⟨b, inside, old, kept, rfl⟩

theorem normalize_is_normal (c : Conjunction) : c.normalize.IsNormal := by
  intro d reaches
  generalize shape : c.normalize = n at reaches
  induction reaches generalizing c with
  | here => exact shape ▸ plain_avms_normalize_le c
  | inside member entry below ih =>
    subst shape
    obtain ⟨b, -, old, -, rfl⟩ := exists_value_of_normalize member entry
    exact ih old rfl

/-- A conjunction in normal form is its own normal form. -/
theorem IsNormal.normalize_eq_self {c : Conjunction} (normal : c.IsNormal) : c.normalize = c := by
  induction c using Conjunction.induct with
  | step c ih =>
    obtain ⟨one, values⟩ := throughout_iff.mp normal
    rw [normalize_eq, merge_avms_of_one one]
    refine (List.map_congr_left fun t inside => ?_).trans (List.map_id c)
    refine (map_values_congr fun a structured entry held => ?_).trans t.map_values_id
    have member : a ∈ c.avms := List.mem_filterMap.mpr ⟨t, inside, structured⟩
    exact ih a member entry held (values a member entry held)

end Conjunction

/-- The values of a normalized AVM are in normal form. -/
theorem Avm.normal_values {a : Avm} (normal : a.normalize = a) : ∀ entry ∈ a.entries, Conjunction.IsNormal entry.2 := by
  intro entry member
  rw [← normal, normalize, entries_map_values] at member
  obtain ⟨old, -, rfl⟩ := List.mem_map.mp member
  exact Conjunction.normalize_is_normal old.2

/-! ## What meets at a place -/

/-- A step down from a conjunction: to a feature that its plain AVMs share, or to a feature of one of the
other terms, counted from the left. -/
inductive Descent where
  | shared (name : String)
  | other (index : Nat) (name : String)

/-- What AVMs say together about a feature: their values of it, one after the other. -/
def jointValue? (name : String) : List Avm → Option Conjunction
  | [] => none
  | a :: rest => Option.merge (· ++ ·) (a.entries.lookup name) (jointValue? name rest)

namespace Conjunction

/-- What a conjunction says one step down. -/
def below? (c : Conjunction) : Descent → Option Conjunction
  | .shared name => jointValue? name c.plainAvms
  | .other index name => (c.otherTerms[index]?.bind (·.avm?)).bind (·.entries.lookup name)

/-- What a conjunction says at a place, given by the steps that lead to it. -/
def gathered? (c : Conjunction) : List Descent → Option Conjunction
  | [] => some c
  | step :: rest => (c.below? step).bind (gathered? · rest)

end Conjunction

theorem lookup_foldl_merge {a : Avm} {others : List Avm} (distinct : ∀ b ∈ others, b.Distinct) (name : String) :
    (others.foldl Avm.merge a).entries.lookup name = jointValue? name (a :: others) := by
  induction others generalizing a with
  | nil => rw [List.foldl_nil, jointValue?, jointValue?, Option.merge_none_right]
  | cons b rest ih =>
    obtain ⟨here, later⟩ := List.forall_mem_cons.mp distinct
    rw [List.foldl_cons, ih later, jointValue?, jointValue?, jointValue?, lookup_merge a here.names]
    have joins : Std.Associative (Option.merge fun c d : Conjunction => c ++ d) := inferInstance
    exact joins.assoc ..

/-- AVMs lead together where one of them leads. -/
theorem contains_joint (name : String) (rest : Path) (avms : List Avm) :
    (jointValue? name avms).any (·.contains rest) = avms.any (·.contains (name :: rest)) := by
  induction avms with
  | nil => rfl
  | cons a others ih =>
    rw [jointValue?, List.any_cons, ← ih, Avm.contains_cons]
    cases a.entries.lookup name <;> cases jointValue? name others <;>
      simp [Option.merge, Conjunction.contains_append]

theorem contains_foldl_merge {others : List Avm} (distinct : ∀ b ∈ others, b.Distinct) (a : Avm) (name : String)
    (rest : Path) :
    (others.foldl Avm.merge a).contains (name :: rest) = (a :: others).any (·.contains (name :: rest)) := by
  rw [Avm.contains_cons, lookup_foldl_merge distinct, contains_joint]

theorem joint_append (name : String) (avms more : List Avm) :
    jointValue? name (avms ++ more) = Option.merge (· ++ ·) (jointValue? name avms) (jointValue? name more) := by
  have joins : Std.Associative (Option.merge fun c d : Conjunction => c ++ d) := inferInstance
  induction avms with
  | nil => rw [List.nil_append, jointValue?, Option.merge_none_left]
  | cons a others ih => rw [List.cons_append, jointValue?, jointValue?, ih, joins.assoc]

theorem doc_foldl_merge (a : Avm) (others : List Avm) :
    (others.foldl Avm.merge a).doc = (a :: others).findSome? (·.doc) := by
  induction others generalizing a with
  | nil =>
    rw [List.foldl_nil, List.findSome?_singleton]
  | cons b rest ih =>
    rw [List.foldl_cons, ih, List.findSome?_cons, List.findSome?_cons (a := a), List.findSome?_cons (a := b),
      Avm.merge]
    cases a.doc <;> rfl

namespace Conjunction

/-- The plain AVMs that meet in a conjunction become one AVM with the first of their docstrings. -/
theorem normalize_joins {c : Conjunction} (some : c.plainAvms ≠ []) :
    ∃ a, c.normalize.plainAvms = [a] ∧ a.doc = c.plainAvms.findSome? (·.doc) := by
  rw [plain_avms_normalize, plain_avms_merge_avms]
  cases shape : c.plainAvms with
  | nil => exact absurd shape some
  | cons a others => exact ⟨_, rfl, doc_foldl_merge a others⟩

theorem mem_avms_of_plain {c : Conjunction} {a : Avm} (member : a ∈ c.plainAvms) : a ∈ c.avms := by
  obtain ⟨t, inside, merges⟩ := List.mem_filterMap.mp member
  obtain ⟨rfl, -⟩ := mergeable_eq_some_iff.mp merges
  exact List.mem_filterMap.mpr ⟨_, inside, rfl⟩

theorem distinct_of_plain {c : Conjunction} (distinct : ∀ t ∈ c, t.Distinct) : ∀ a ∈ c.plainAvms, a.Distinct :=
  fun a member => distinct_iff.mp distinct a (mem_avms_of_plain member)

/-- One step down in the normal form is the normal form of what is one step down. -/
theorem below_normalize {c : Conjunction} (distinct : ∀ t ∈ c, t.Distinct) (step : Descent) :
    c.normalize.below? step = (c.below? step).map normalize := by
  cases step with
  | shared name =>
    have plain := distinct_of_plain distinct
    rw [below?, below?, plain_avms_normalize, plain_avms_merge_avms]
    cases shape : c.plainAvms with
    | nil => rfl
    | cons a others =>
      rw [shape] at plain
      rw [← lookup_foldl_merge (List.forall_mem_cons.mp plain).2]
      rw [List.map_singleton, jointValue?, jointValue?, Option.merge_none_right]
      exact lookup_map_values ..
  | other index name =>
    rw [below?, below?, other_terms_normalize, List.getElem?_map]
    cases c.otherTerms[index]? with
    | none => rfl
    | some t =>
      simp only [Option.map_some, Option.bind_some, Term.avm_map_values]
      cases t.avm? with
      | none => rfl
      | some a => exact lookup_map_values a name normalize

/-- No name gets a second value one step down. -/
theorem distinct_below {c d : Conjunction} {step : Descent} (distinct : ∀ t ∈ c, t.Distinct)
    (found : c.below? step = some d) : ∀ t ∈ d, t.Distinct := by
  have held {a : Avm} {name : String} {value : Conjunction} (distinct : a.Distinct)
      (found : a.entries.lookup name = some value) : ∀ t ∈ value, t.Distinct :=
    distinct.values (name, value) (mem_of_lookup found)
  cases step with
  | shared name =>
    have all := distinct_of_plain distinct
    rw [below?] at found
    generalize c.plainAvms = avms at found all
    induction avms generalizing d with
    | nil => cases found
    | cons a rest ih =>
      obtain ⟨here, later⟩ := List.forall_mem_cons.mp all
      rw [jointValue?] at found
      cases first : a.entries.lookup name <;> cases second : jointValue? name rest <;>
        rw [first, second] at found <;> cases found
      · exact ih second later
      · exact held here first
      · exact List.forall_mem_append.mpr ⟨held here first, ih second later⟩
  | other index name =>
    obtain ⟨a, structured, here⟩ := Option.bind_eq_some_iff.mp found
    obtain ⟨t, inside, structured⟩ := Option.bind_eq_some_iff.mp structured
    have member : t ∈ c := List.mem_of_mem_filter (List.mem_of_getElem? inside)
    exact held (distinct_iff.mp distinct a (List.mem_filterMap.mpr ⟨t, member, structured⟩)) here

/-- At every place of the normal form stands the normal form of what meets there. -/
theorem gathered_normalize {c : Conjunction} (distinct : ∀ t ∈ c, t.Distinct) (place : List Descent) :
    c.normalize.gathered? place = (c.gathered? place).map normalize := by
  induction place generalizing c with
  | nil => rfl
  | cons step rest ih =>
    rw [gathered?, gathered?, below_normalize distinct]
    cases found : c.below? step with
    | none => rfl
    | some d => exact ih (distinct_below distinct found)

/-- A value that is left after merging is one step down. -/
theorem exists_step {c value : Conjunction} {a : Avm} {name : String} (distinct : ∀ t ∈ c, t.Distinct)
    (member : a ∈ c.mergeAvms.avms) (entry : (name, value) ∈ a.entries) :
    ∃ step, c.below? step = some value := by
  have unique := (forall_merge_avms (fun _ _ => Avm.Distinct.merge) (distinct_iff.mp distinct) a member).names
  have found := lookup_of_mem unique entry
  obtain ⟨t, inside, structured⟩ := List.mem_filterMap.mp member
  cases merges : t.mergeable? with
  | some b =>
    obtain ⟨rfl, -⟩ := mergeable_eq_some_iff.mp merges
    cases structured
    have here : a ∈ c.mergeAvms.plainAvms := List.mem_filterMap.mpr ⟨_, inside, merges⟩
    rw [plain_avms_merge_avms] at here
    refine ⟨.shared name, ?_⟩
    rw [below?]
    cases shape : c.plainAvms with
    | nil => rw [shape] at here; cases here
    | cons first others =>
      rw [shape] at here
      have plain : ∀ b ∈ others, b.Distinct := fun b later =>
        distinct_of_plain distinct b (shape ▸ List.mem_cons_of_mem _ later)
      rw [← lookup_foldl_merge plain, ← List.mem_singleton.mp here, found]
  | none =>
    have other : t ∈ c.otherTerms := by
      rw [otherTerms, ← filter_merge_avms]
      exact List.mem_filter.mpr ⟨inside, by rw [merges]; rfl⟩
    obtain ⟨index, here⟩ := List.mem_iff_getElem?.mp other
    exact ⟨.other index name, by rw [below?, here, Option.bind_some, structured, Option.bind_some, found]⟩

/-- Every conjunction inside the normal form stands at a place. -/
theorem exists_place {c e : Conjunction} (distinct : ∀ t ∈ c, t.Distinct) (reaches : c.normalize.Reaches e) :
    ∃ place d, c.gathered? place = some d ∧ e = d.normalize := by
  generalize shape : c.normalize = n at reaches
  induction reaches generalizing c with
  | here => exact ⟨[], c, rfl, shape.symm⟩
  | inside member entry below ih =>
    subst shape
    obtain ⟨b, left, old, held, rfl⟩ := exists_value_of_normalize member entry
    obtain ⟨step, here⟩ := exists_step distinct left held
    obtain ⟨place, d, found, same⟩ := ih (distinct_below distinct here) rfl
    exact ⟨step :: place, d, by rw [gathered?, here]; exact found, same⟩

/-- Normalising reaches a normal form, and there it rests. -/
theorem normalize_reaches_normal_form (c : Conjunction) :
    (∀ d, c.normalize.Reaches d → d.plainAvms.length ≤ 1) ∧
      c.normalize.normalize = c.normalize ∧
      ((∀ t ∈ c, t.Distinct) →
        (∀ e, c.normalize.Reaches e → ∃ place d, c.gathered? place = some d ∧ e = d.normalize) ∧
        ∀ place d, c.gathered? place = some d →
          c.normalize.gathered? place = some d.normalize ∧
          (d.plainAvms ≠ [] →
            ∃ a, d.normalize.plainAvms = [a] ∧ a.doc = d.plainAvms.findSome? (·.doc))) := by
  refine ⟨normalize_is_normal c, (normalize_is_normal c).normalize_eq_self,
    fun distinct => ⟨fun e => exists_place distinct, fun place d found => ⟨?_, normalize_joins⟩⟩⟩
  rw [gathered_normalize distinct, found, Option.map_some]

/-- Two AVMs meet, a list and a null AVM between them, and two more meet below their common feature. The
inner ones had not met before the outer ones did; only the second of them has a docstring. -/
theorem normalize_reaches_normal_form_below :
    let x : Avm := ⟨some [("B", [.named "x"])], none⟩
    let y : Avm := ⟨some [("B", [.named "y"])], some "inner"⟩
    let list := ConsList.empty.push [.named "item"]
    let c : Conjunction := [.avm ⟨some [("A", [.avm x])], none⟩, .avm ⟨none, none⟩, .cons list,
      .avm ⟨some [("A", [.named "t", .avm y])], some "outer"⟩]
    let met : Conjunction := [.avm x, .named "t", .avm y]
    c.normalize.normalize = c.normalize ∧ (∀ t ∈ c, t.Distinct) ∧
      c.gathered? [.shared "A"] = some met ∧ c.normalize.gathered? [.shared "A"] = some met.normalize ∧
      met.plainAvms ≠ [] ∧ ∃ a, met.normalize.plainAvms = [a] ∧ a.doc = some "inner" := by
  intro x y list c met
  have named (name : String) : (Term.named name).Distinct :=
    .intro (fun _ structured => by cases structured) fun _ structured => by cases structured
  have single (name : String) {value : Conjunction} (doc : Option String) (values : ∀ t ∈ value, t.Distinct) :
      (Term.avm ⟨some [(name, value)], doc⟩).Distinct :=
    Term.distinct_avm_iff.mpr ⟨by simp [Avm.entries], List.forall_mem_singleton.mpr values⟩
  have distinct : ∀ t ∈ c, t.Distinct := by
    refine List.forall_mem_cons.mpr ⟨single "A" none ?_, List.forall_mem_cons.mpr ⟨?_, List.forall_mem_cons.mpr ⟨?_,
      List.forall_mem_singleton.mpr (single "A" (some "outer") ?_)⟩⟩⟩
    · exact List.forall_mem_singleton.mpr (single "B" none (List.forall_mem_singleton.mpr (named "x")))
    · exact Term.distinct_avm_iff.mpr ⟨List.nodup_nil, List.forall_mem_nil _⟩
    · have item := single "FIRST" none (List.forall_mem_singleton.mpr (named "item"))
      exact .intro (fun a same => by cases same; exact (Term.distinct_avm_iff.mp item).names)
        fun a same => by cases same; exact (Term.distinct_avm_iff.mp item).values
    · exact List.forall_mem_cons.mpr ⟨named "t", List.forall_mem_singleton.mpr
        (single "B" (some "inner") (List.forall_mem_singleton.mpr (named "y")))⟩
  obtain ⟨-, rests, places⟩ := normalize_reaches_normal_form c
  have here : c.gathered? [.shared "A"] = some met := rfl
  have some : met.plainAvms ≠ [] := List.cons_ne_nil x [y]
  obtain ⟨there, joined⟩ := (places distinct).2 [.shared "A"] met here
  exact ⟨rests, distinct, here, there, some, joined some⟩

end Conjunction

end TypeDescription
