import TypeDescription.Proofs.Sharing

/-!
What a written definition defines. Only two things can be wrong with it once its tokens are
grammatical: that it names no type although it is no addendum, and that one of its coreferences
stands alone. Apart from them the event follows from the declaration and its coreference sets.
-/

namespace TypeDescription

namespace Declaration

/-- All but addenda name a type among their terms. -/
def Supported (d : Declaration) : Prop :=
  d.isAddendum = false → ∃ t ∈ d.body.conjunction, t.isType = true

/-- The definition that is written, affixes apart, once the coreference sets are known. -/
def definition (d : Declaration) (coreferences : List CoreferenceSet) : Definition :=
  { identifier := d.identifier, conjunction := d.body.conjunction, coreferences
    doc := d.body.doc, isAddendum := d.isAddendum }

/-- What is defined, once the coreference sets are known. -/
def defined (d : Declaration) (coreferences : List CoreferenceSet) : Event :=
  match d.head with
  | .definition _ (some (side, patterns)) =>
    .rule { definition := d.definition coreferences, side, affixes := patterns.map affixFields }
  | _ => .definition (d.definition coreferences)

private theorem types_eq_nil_iff (c : Conjunction) : c.types = [] ↔ ¬ ∃ t ∈ c, t.isType = true := by
  simp [Conjunction.types, List.filter_eq_nil_iff]

/-- A definition without a type is refused before its coreferences are looked at. -/
theorem event_of_not_supported {d : Declaration} (bare : ¬ d.Supported) :
    d.event = .error .missingSupertypes := by
  obtain ⟨definition, none⟩ := Classical.not_imp.mp bare
  have empty := (types_eq_nil_iff _).mpr none
  simp [event, definition, empty]

/-- Apart from that, only the coreferences decide. -/
theorem event_of_supported {d : Declaration} (supported : d.Supported) :
    d.event = (CoreferenceSet.resolve d.body.mentions).map d.defined := by
  have passes : (!d.isAddendum && d.body.conjunction.types.isEmpty) = false := by
    cases addendum : d.isAddendum with
    | true => rfl
    | false =>
      have named : d.body.conjunction.types ≠ [] := fun empty =>
        (types_eq_nil_iff _).mp empty (supported addendum)
      simp [named]
  rw [event]
  simp only [passes, Bool.false_eq_true, ↓reduceIte]
  cases CoreferenceSet.resolve d.body.mentions with
  | error cause => rfl
  | ok coreferences =>
    obtain ⟨identifier, head, body⟩ := d
    rcases head with _ | ⟨old, _ | ⟨side, patterns⟩⟩ <;> rfl

theorem event_eq_ok_iff {d : Declaration} {e : Event} :
    d.event = .ok e ↔
      d.Supported ∧ ∃ sets, CoreferenceSet.resolve d.body.mentions = .ok sets ∧ e = d.defined sets := by
  by_cases supported : d.Supported
  · rw [event_of_supported supported]
    cases CoreferenceSet.resolve d.body.mentions <;> simp [Except.map, supported, eq_comm]
  · simp [event_of_not_supported supported, supported]

/-- Only a missing type and a tag that stands alone are reasons to refuse a definition. -/
theorem cause_of_event {d : Declaration} {cause : Cause} (refused : d.event = .error cause) :
    cause = .missingSupertypes ∨ ∃ tag path, cause = .solitaryCoreference (some tag) path := by
  by_cases supported : d.Supported
  · rw [event_of_supported supported] at refused
    cases resolved : CoreferenceSet.resolve d.body.mentions with
    | ok sets =>
      rw [resolved] at refused
      cases refused
    | error cause' =>
      rw [resolved] at refused
      cases refused
      obtain ⟨-, tag, -, path, -, -, -, -, rfl⟩ :=
        CoreferenceSet.resolve_eq_error d.body.mentions_regular resolved
      exact .inr ⟨tag, path, rfl⟩
  · rw [event_of_not_supported supported] at refused
    cases refused
    exact .inl rfl

/-- A declaration defines something: its event is no comment and no letter set. -/
theorem event_cases {d : Declaration} {e : Event} (produced : d.event = .ok e) :
    (∃ definition, e = .definition definition) ∨ ∃ rule, e = .rule rule := by
  obtain ⟨-, sets, -, rfl⟩ := event_eq_ok_iff.mp produced
  obtain ⟨identifier, head, body⟩ := d
  rcases head with _ | ⟨old, _ | ⟨side, patterns⟩⟩
  · exact .inl ⟨_, rfl⟩
  · exact .inl ⟨_, rfl⟩
  · exact .inr ⟨_, rfl⟩

/-- The definition of an event is the one that is written. -/
theorem definition_of_event {d : Declaration} {e : Event} {definition : Definition}
    (produced : d.event = .ok e) (defined : e.definition? = some definition) :
    ∃ sets, CoreferenceSet.resolve d.body.mentions = .ok sets ∧ definition = d.definition sets := by
  obtain ⟨-, sets, resolved, rfl⟩ := event_eq_ok_iff.mp produced
  refine ⟨sets, resolved, ?_⟩
  obtain ⟨identifier, head, body⟩ := d
  rcases head with _ | ⟨old, _ | ⟨side, patterns⟩⟩ <;> cases defined <;> rfl

theorem conjunction_of_event {d : Declaration} {e : Event} {definition : Definition}
    (produced : d.event = .ok e) (defined : e.definition? = some definition) :
    definition.conjunction = d.body.conjunction := by
  obtain ⟨sets, -, rfl⟩ := definition_of_event produced defined
  rfl

theorem identifier_of_event {d : Declaration} {e : Event} {definition : Definition}
    (produced : d.event = .ok e) (defined : e.definition? = some definition) :
    definition.identifier = d.identifier := by
  obtain ⟨sets, -, rfl⟩ := definition_of_event produced defined
  rfl

theorem is_comment_event {d : Declaration} {e : Event} (produced : d.event = .ok e) :
    e.isComment = false := by
  obtain ⟨definition, rfl⟩ | ⟨rule, rfl⟩ := event_cases produced <;> rfl

end Declaration

end TypeDescription
