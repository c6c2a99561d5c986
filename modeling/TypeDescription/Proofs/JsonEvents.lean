import Mathlib.Data.List.Nodup
import TypeDescription.Definition.Json
import TypeDescription.Proofs.JsonTexts
import TypeDescription.Proofs.Places

/-!
Events are held as JSON without loss: the text of an event is read as this event, whatever its
strings are, however its terms are nested, and whether or not its lists hold what they say. It is
only asked that the features of every AVM have different names, as those of a map have, and that
every count can be held. A record is read by its names, so each reader finds what its writer put
there; a term is read as deep as its JSON value is.
-/

namespace TypeDescription

open Json

/-! ## Records -/

namespace Json

private theorem lookup_names {names : List String} (nodup : names.Nodup) {values : List Json}
    (same : names.length = values.length) :
    (names.map fun name => (names.zip values).lookup name) = values.map some := by
  induction names generalizing values with
  | nil =>
    obtain rfl := List.eq_nil_of_length_eq_zero same.symm
    rfl
  | cons name rest ih =>
    cases values with
    | nil => cases same
    | cons value later =>
      obtain ⟨absent, nodup⟩ := List.nodup_cons.mp nodup
      have others : (rest.map fun other => ((name :: rest).zip (value :: later)).lookup other) =
          rest.map fun other => (rest.zip later).lookup other := by
        refine List.map_congr_left fun other member => ?_
        have differs : (other == name) = false :=
          beq_eq_false_iff_ne.mpr fun same => absent (same ▸ member)
        rw [List.zip_cons_cons, List.lookup_cons, differs]
      rw [List.map_cons, others, ih nodup (Nat.succ.inj same)]
      simp

/-- The members of a record are found by their names. -/
theorem record_of_names (names : List String) (nodup : names.Nodup) (values : List Json)
    (same : names.length = values.length) :
    record? names (.object (names.zip values)) = some (values.map some) := by
  have keys : (names.zip values).map Prod.fst = names := List.map_fst_zip (Nat.le_of_eq same)
  have once : (names.all fun name =>
      ((names.zip values).filter fun entry => entry.1 = name).length ≤ 1) = true := by
    rw [List.all_eq_true]
    intro name _
    have count : ((names.zip values).filter fun entry => entry.1 = name).length = names.count name := by
      rw [← List.countP_eq_length_filter]
      conv_rhs => rw [← keys, List.count, List.countP_map]
      rfl
    rw [count]
    exact decide_eq_true (List.nodup_iff_count.mp nodup name)
  rw [record?, if_pos once, lookup_names nodup same]

@[simp] theorem required_some (read : Json → Option α) (j : Json) : required read (some j) = read j := rfl

@[simp] theorem string_of_string (text : String) : string? (string text) = some text := rfl

@[simp] theorem bool_of_bool (value : Bool) : bool? (bool value) = some value := rfl

theorem count_of_count {n : Nat} (small : n ≤ maxCount) : count? (count n) = some n := if_pos small

@[simp] theorem optional_string (text : Option String) :
    optional string? (some (ofOption text)) = some text := by
  cases text <;> rfl

@[simp] theorem optional_null (read : Json → Option α) :
    Json.optional read (some null) = some none := rfl

@[simp] theorem optional_object (read : Json → Option α) (members : List (String × Json)) :
    Json.optional read (some (object members)) = (read (object members)).map some := rfl

/-- Values that are read back one by one are read back as an array. -/
theorem list_of_list {write : α → Json} {read : Json → Option α} {elements : List α}
    (inverse : ∀ a ∈ elements, read (write a) = some a) :
    list? read (array (elements.map write)) = some elements :=
  mapM_map_of_inverse inverse

end Json

/-! ## Terms -/

theorem json_of_terms (c : Conjunction) : jsonOfTerms c = c.map Term.json := by
  induction c with
  | nil => rfl
  | cons t rest ih => rw [jsonOfTerms, ih, List.map_cons]

theorem json_of_entries (entries : Features) :
    jsonOfEntries entries = entries.map fun entry => (entry.1, Conjunction.json entry.2) := by
  induction entries with
  | nil => rfl
  | cons entry rest ih => rw [jsonOfEntries, ih, List.map_cons, Conjunction.json]

section Shapes

variable {readValue : Json → Option Conjunction} {a : Avm}

private theorem type_of_json (form : TypeForm) (text : String) (doc : Option String) :
    Term.ofTypeJson? form (.object [("text", .string text), ("docstring", .ofOption doc)]) =
      some (.type form text doc) := by
  have found := record_of_names ["text", "docstring"] (by decide) [.string text, .ofOption doc] rfl
  simp only [List.zip_cons_cons, List.zip_nil_right] at found
  rw [Term.ofTypeJson?, found]
  simp

private theorem coreference_of_json (tag doc : Option String) :
    Term.ofCoreferenceJson? (.object [("tag", .ofOption tag), ("docstring", .ofOption doc)]) =
      some (.coreference tag doc) := by
  have found := record_of_names ["tag", "docstring"] (by decide) [.ofOption tag, .ofOption doc] rfl
  simp only [List.zip_cons_cons, List.zip_nil_right] at found
  rw [Term.ofCoreferenceJson?, found]
  simp

/-- The features of an AVM are read in their order; where there is no map, none is read. -/
private theorem avm_of_json (names : (a.entries.map (·.1)).Nodup)
    (values : ∀ entry ∈ a.entries, readValue (Conjunction.json entry.2) = some entry.2) :
    Avm.ofJson? readValue a.json = some a := by
  obtain ⟨features, doc⟩ := a
  cases features with
  | none =>
    have found := record_of_names ["features", "docstring"] (by decide) [.null, .ofOption doc] rfl
    simp only [List.zip_cons_cons, List.zip_nil_right] at found
    rw [Avm.ofJson?, Avm.json, found]
    simp
  | some entries =>
    have found := record_of_names ["features", "docstring"] (by decide)
      [.object (jsonOfEntries entries), .ofOption doc] rfl
    simp only [List.zip_cons_cons, List.zip_nil_right] at found
    have members : (jsonOfEntries entries).mapM
        (fun entry => (readValue entry.2).bind fun value => some (entry.1, value)) = some entries := by
      rw [json_of_entries, mapM_map_of_inverse]
      intro entry member
      rw [values entry member]
      rfl
    have all : Features.ofMembers entries = entries :=
      foldl_update_of_nodup (fun entry _ => entry.2) (fun _ _ => rfl) names
    rw [Avm.ofJson?, Avm.json, found]
    simp [members, all]

private theorem cons_of_json {l : ConsList} (small : l.length ≤ maxCount)
    (avm : Avm.ofJson? readValue l.avm.json = some l.avm) :
    Term.ofJson? readValue (Term.cons l).json = some (.cons l) := by
  obtain ⟨a, lastPath, length, terminated⟩ := l
  have found := record_of_names ["avm", "last_path", "len", "terminated"] (by decide)
    [a.json, .string lastPath, .count length, .bool terminated] rfl
  simp only [List.zip_cons_cons, List.zip_nil_right] at found
  have content : ConsList.ofJson? (Avm.ofJson? readValue) (.object
      [ ("avm", a.json), ("last_path", .string lastPath), ("len", .count length)
      , ("terminated", .bool terminated) ]) = some ⟨a, lastPath, length, terminated⟩ := by
    rw [ConsList.ofJson?, found]
    simp [count_of_count small, avm]
  rw [Term.json, Term.ofJson?]
  simp [alternative?, content]

private theorem diff_of_json {l : DiffList} (small : l.length ≤ maxCount)
    (avm : Avm.ofJson? readValue l.avm.json = some l.avm) :
    Term.ofJson? readValue (Term.diff l).json = some (.diff l) := by
  obtain ⟨a, length⟩ := l
  have found := record_of_names ["avm", "len"] (by decide) [a.json, .count length] rfl
  simp only [List.zip_cons_cons, List.zip_nil_right] at found
  have content : DiffList.ofJson? (Avm.ofJson? readValue)
      (.object [("avm", a.json), ("len", .count length)]) = some ⟨a, length⟩ := by
    rw [DiffList.ofJson?, found]
    simp [count_of_count small, avm]
  rw [Term.json, Term.ofJson?]
  simp [alternative?, content]

end Shapes

/-- The count that a list holds. -/
def Term.length? : Term → Option Nat
  | .cons l => some l.length
  | .diff l => some l.length
  | _ => none

/-- A term can be held: every list in it has a count that can be held, and the features of every AVM
in it have different names. -/
inductive Term.Storable : Term → Prop where
  | intro {t : Term} (length : ∀ n ∈ t.length?, n ≤ maxCount)
    (names : ∀ a ∈ t.avm?, (a.entries.map (·.1)).Nodup)
    (values : ∀ a ∈ t.avm?, ∀ entry ∈ a.entries, ∀ u ∈ entry.2, Storable u) : Storable t

/-- A term is read back, if the values inside it are. -/
private theorem term_of_json {readValue : Json → Option Conjunction} {t : Term}
    (length : ∀ n ∈ t.length?, n ≤ maxCount) (names : ∀ a ∈ t.avm?, (a.entries.map (·.1)).Nodup)
    (values : ∀ a ∈ t.avm?, ∀ entry ∈ a.entries,
      readValue (Conjunction.json entry.2) = some entry.2) :
    Term.ofJson? readValue t.json = some t := by
  cases t with
  | type form text doc =>
    have content := type_of_json form text doc
    cases form <;> exact content
  | coreference tag doc => exact coreference_of_json tag doc
  | avm a =>
    have content := avm_of_json (names a rfl) (values a rfl)
    rw [Term.json, Term.ofJson?]
    simp [alternative?, content]
  | cons l => exact cons_of_json (length _ rfl) (avm_of_json (names _ rfl) (values _ rfl))
  | diff l => exact diff_of_json (length _ rfl) (avm_of_json (names _ rfl) (values _ rfl))

/-! ## Depth -/

namespace Json

theorem depth_le_of_mem_items {item : Json} {items : List Json} (member : item ∈ items) :
    item.depth ≤ depthOfItems items := by
  induction items with
  | nil => cases member
  | cons first rest ih =>
    rw [depthOfItems]
    rcases List.mem_cons.mp member with rfl | later
    · exact Nat.le_max_left ..
    · exact Nat.le_trans (ih later) (Nat.le_max_right ..)

theorem depth_le_of_mem_members {entry : String × Json} {members : List (String × Json)}
    (member : entry ∈ members) : entry.2.depth ≤ depthOfMembers members := by
  induction members with
  | nil => cases member
  | cons first rest ih =>
    rw [depthOfMembers]
    rcases List.mem_cons.mp member with rfl | later
    · exact Nat.le_max_left ..
    · exact Nat.le_trans (ih later) (Nat.le_max_right ..)

end Json

/-- A value of a feature is not as deep as what it is in. -/
private theorem depth_of_value_le {t : Term} {a : Avm} (structured : a ∈ t.avm?)
    {entry : String × Conjunction} (member : entry ∈ a.entries) :
    (Conjunction.json entry.2).depth ≤ t.json.depth := by
  have inAvm : (Conjunction.json entry.2).depth ≤ a.json.depth := by
    obtain ⟨_ | entries, doc⟩ := a
    · cases member
    · have inside : (entry.1, Conjunction.json entry.2) ∈ jsonOfEntries entries := by
        rw [json_of_entries]
        exact List.mem_map_of_mem member
      have deep : (Conjunction.json entry.2).depth ≤ depthOfMembers (jsonOfEntries entries) :=
        depth_le_of_mem_members inside
      simp only [Avm.json, Json.depth, depthOfMembers]
      omega
  have inTerm : a.json.depth ≤ t.json.depth := by
    cases t with
    | type form text doc => cases structured
    | coreference tag doc => cases structured
    | avm b =>
      cases structured
      simp only [Term.json, Json.depth, depthOfMembers]
      omega
    | cons l | diff l =>
      cases structured
      cases l
      simp only [Term.json, Json.depth, depthOfMembers]
      omega
  exact Nat.le_trans inAvm inTerm

/-- A conjunction is read back as deep as it is, if its terms are. -/
private theorem conjunction_of_terms {c : Conjunction}
    (each : ∀ t ∈ c, ∀ n, t.json.depth ≤ n → Term.ofJson? (Conjunction.ofJsonTo? n) t.json = some t)
    {n : Nat} (deep : (Conjunction.json c).depth ≤ n) :
    Conjunction.ofJsonTo? n (Conjunction.json c) = some c := by
  simp only [Conjunction.json, Json.depth, depthOfMembers] at deep
  cases n with
  | zero => omega
  | succ n =>
    have found := record_of_names ["terms"] (by decide) [.array (jsonOfTerms c)] rfl
    simp only [List.zip_cons_cons, List.zip_nil_right] at found
    have terms : list? (Term.ofJson? (Conjunction.ofJsonTo? n)) (.array (jsonOfTerms c)) = some c := by
      rw [json_of_terms]
      refine list_of_list fun t member => each t member n ?_
      have inside : t.json ∈ jsonOfTerms c := by
        rw [json_of_terms]
        exact List.mem_map_of_mem member
      have shallow := depth_le_of_mem_items inside
      omega
    rw [Conjunction.ofJsonTo?, Conjunction.json, found]
    simp [terms]

/-- A term that can be held is read back as deep as it is. -/
theorem Term.Storable.of_json {t : Term} (storable : t.Storable) :
    ∀ n, t.json.depth ≤ n → Term.ofJson? (Conjunction.ofJsonTo? n) t.json = some t := by
  induction storable with
  | intro length names values ih =>
    intro n deep
    refine term_of_json length names fun a structured entry member => ?_
    exact conjunction_of_terms (ih a structured entry member)
      (Nat.le_trans (depth_of_value_le structured member) deep)

theorem conjunction_of_json {c : Conjunction} (storable : ∀ t ∈ c, t.Storable) :
    Conjunction.ofJson? (Conjunction.json c) = some c :=
  conjunction_of_terms (fun t member => (storable t member).of_json) (Nat.le_refl _)

/-! ## Events -/

theorem coreference_set_of_json (set : CoreferenceSet) :
    CoreferenceSet.ofJson? set.json = some set := by
  have found := record_of_names ["tag", "paths"] (by decide)
    [.ofOption set.tag, .array (set.paths.map .string)] rfl
  simp only [List.zip_cons_cons, List.zip_nil_right] at found
  have paths : list? string? (.array (set.paths.map .string)) = some set.paths :=
    list_of_list fun _ _ => rfl
  rw [CoreferenceSet.ofJson?, CoreferenceSet.json, found]
  simp [paths]

theorem definition_of_json {d : Definition} (storable : ∀ t ∈ d.conjunction, t.Storable) :
    Definition.ofJson? d.json = some d := by
  have found := record_of_names ["identifier", "conjunction", "coreferences", "docstring", "addendum"]
    (by decide)
    [ .string d.identifier, d.conjunction.json, .array (d.coreferences.map CoreferenceSet.json)
    , .ofOption d.doc, .bool d.isAddendum ] rfl
  simp only [List.zip_cons_cons, List.zip_nil_right] at found
  have sets : list? CoreferenceSet.ofJson? (.array (d.coreferences.map CoreferenceSet.json)) =
      some d.coreferences := list_of_list fun set _ => coreference_set_of_json set
  rw [Definition.ofJson?, Definition.json, found]
  simp [sets, conjunction_of_json storable]

theorem rule_of_json {r : InflectionalRule} (storable : ∀ t ∈ r.definition.conjunction, t.Storable) :
    InflectionalRule.ofJson? r.json = some r := by
  let pair (affix : String × String) : Json := .array [.string affix.1, .string affix.2]
  have found := record_of_names ["definition", "affix_type", "affixes"] (by decide)
    [r.definition.json, .string r.side.jsonName, .array (r.affixes.map pair)] rfl
  simp only [List.zip_cons_cons, List.zip_nil_right] at found
  have affixes : list? (pair? string?) (.array (r.affixes.map pair)) = some r.affixes :=
    list_of_list fun _ _ => rfl
  have side : AffixSide.ofJson? (.string r.side.jsonName) = some r.side := by
    cases r.side <;> rfl
  rw [InflectionalRule.ofJson?, InflectionalRule.json, found]
  simp [affixes, side, definition_of_json storable]

namespace Event

/-- An event can be held: its terms can, and its line can. -/
def Storable : Event → Prop
  | definition d => ∀ t ∈ d.conjunction, t.Storable
  | rule r => ∀ t ∈ r.definition.conjunction, t.Storable
  | letterSet _ line => line ≤ maxCount
  | lineComment _ line => line ≤ maxCount
  | blockComment _ line => line ≤ maxCount

private theorem line_of_json (event : String → Nat → Event) (text : String) {line : Nat}
    (small : line ≤ maxCount) :
    ofLineJson? event (.object [("text", .string text), ("line_number", .count line)]) =
      some (event text line) := by
  have found := record_of_names ["text", "line_number"] (by decide) [.string text, .count line] rfl
  simp only [List.zip_cons_cons, List.zip_nil_right] at found
  rw [ofLineJson?, found]
  simp [count_of_count small]

/-- An event that can be held is read back. -/
theorem of_json {e : Event} (storable : e.Storable) : ofJson? e.json = some e := by
  cases e with
  | definition d =>
    have content := definition_of_json storable
    rw [json, ofJson?]
    simp [alternative?, content]
  | rule r =>
    have content := rule_of_json storable
    rw [json, ofJson?]
    simp [alternative?, content]
  | letterSet text line => exact line_of_json letterSet text storable
  | lineComment text line => exact line_of_json lineComment text storable
  | blockComment text line => exact line_of_json blockComment text storable

end Event

/-! ## Texts -/

namespace Json

attribute [simp] Plain.null Plain.bool Plain.count Plain.string

@[simp] theorem plain_of_option (text : Option String) : (ofOption text).Plain := by
  cases text <;> simp [ofOption]

@[simp] theorem plain_array_iff {items : List Json} : (array items).Plain ↔ ∀ item ∈ items, item.Plain := by
  constructor
  · rintro ⟨⟩
    assumption
  · exact .array

@[simp] theorem plain_object_iff {members : List (String × Json)} :
    (object members).Plain ↔ ∀ entry ∈ members, entry.2.Plain := by
  constructor
  · rintro ⟨⟩
    assumption
  · exact .object

end Json

private theorem plain_of_terms {c : Conjunction} (each : ∀ t ∈ c, t.json.Plain) :
    (Conjunction.json c).Plain := by
  simpa [Conjunction.json, json_of_terms] using each

/-- A term is held in full. -/
theorem Term.Storable.plain {t : Term} (storable : t.Storable) : t.json.Plain := by
  induction storable with
  | @intro t length names values ih =>
    have avm (a : Avm) (structured : a ∈ t.avm?) : a.json.Plain := by
      have inside (entry : String × Conjunction) (member : entry ∈ a.entries) :
          (Conjunction.json entry.2).Plain := plain_of_terms (ih a structured entry member)
      obtain ⟨_ | entries, doc⟩ := a
      · simp [Avm.json]
      · have members : (object (jsonOfEntries entries)).Plain := by
          refine plain_object_iff.mpr fun _ member => ?_
          rw [json_of_entries] at member
          obtain ⟨entry, from_entry, rfl⟩ := List.mem_map.mp member
          exact inside entry from_entry
        simpa [Avm.json] using members
    cases t with
    | type form text doc => simp [Term.json]
    | coreference tag doc => simp [Term.json]
    | avm a => simp [Term.json, avm a rfl]
    | cons l =>
      have content := avm l.avm rfl
      cases l
      simp [Term.json, content]
    | diff l =>
      have content := avm l.avm rfl
      cases l
      simp [Term.json, content]

theorem Definition.plain {d : Definition} (storable : ∀ t ∈ d.conjunction, t.Storable) : d.json.Plain := by
  have conjunction : d.conjunction.json.Plain := plain_of_terms fun t member => (storable t member).plain
  simp [Definition.json, CoreferenceSet.json, conjunction]

theorem Event.Storable.plain {e : Event} (storable : e.Storable) : e.json.Plain := by
  cases e with
  | definition d => simp [Event.json, Definition.plain storable]
  | rule r =>
    have affixes : (array (r.affixes.map fun affix => array [string affix.1, string affix.2])).Plain := by
      refine plain_array_iff.mpr fun _ member => ?_
      obtain ⟨affix, -, rfl⟩ := List.mem_map.mp member
      simp
    simpa [Event.json, InflectionalRule.json, Definition.plain storable] using affixes
  | letterSet | lineComment | blockComment => simp [Event.json, Event.lineJson]

/-- Nothing is lost in JSON: the compact text of an event is read as the same event, with the features
of every AVM in the same order. There is a reader that does not go below some depth; it reads every
event that is not deeper. -/
theorem json_round_trip {e : Event} (storable : e.Storable) :
    (Json.ofText? e.json.text).bind Event.ofJson? = some e ∧
      (e.json.depth ≤ Event.maxDepth → Event.ofJsonText? e.json.text = some e) := by
  have text := of_text_text storable.plain
  refine ⟨?_, fun shallow => ?_⟩
  · rw [text, Option.bind_some, Event.of_json storable]
  · rw [Event.ofJsonText?, text, Option.bind_some, cut_of_depth_le _ _ shallow, Event.of_json storable]

/-- A list that says it has more items than can be, whose AVM has a control character in the name of
a feature and a null AVM as its value. -/
theorem json_round_trip_of_inconsistent_list :
    let null : Avm := { features := none, doc := some "" }
    let list : ConsList :=
      { avm := { features := some [("\x00\"", [.avm null]), ("\u00e9", [])], doc := none }
        lastPath := "\\", length := Json.maxCount, terminated := true }
    let e : Event := .definition
      { identifier := "a\n", conjunction := [.cons list, .diff { avm := null, length := 3 }]
        coreferences := [{ tag := none, paths := ["", "/"] }], doc := some "\x7f", isAddendum := true }
    e.Storable ∧ (Json.ofText? e.json.text).bind Event.ofJson? = some e ∧
      Event.ofJsonText? e.json.text = some e := by
  intro null list e
  have empty : (Term.avm null).Storable := by
    refine .intro (fun n count => ?_) (fun a structured => ?_) (fun a structured entry member => ?_)
    · cases count
    · cases structured
      exact List.nodup_nil
    · cases structured
      cases member
  have storable : e.Storable := by
    intro t member
    rcases List.mem_pair.mp member with rfl | rfl
    · refine .intro (fun n count => ?_) (fun a structured => ?_) (fun a structured entry member => ?_)
      · cases count
        exact Nat.le_refl _
      · cases structured
        decide
      · cases structured
        rcases List.mem_pair.mp member with rfl | rfl
        · intro u inside
          obtain rfl := List.mem_singleton.mp inside
          exact empty
        · intro u inside
          cases inside
    · refine .intro (fun n count => ?_) (fun a structured => ?_) (fun a structured entry member => ?_)
      · cases count
        decide
      · cases structured
        exact List.nodup_nil
      · cases structured
        cases member
  have read := json_round_trip storable
  exact ⟨storable, read.1, read.2 (by decide)⟩

end TypeDescription
