import TypeDescription.Proofs.Spellings

/-!
Every derivation is read. From a place where a term is due, the spelling of a phrase leads to the
place after it with the phrase read, whatever stands around: this is proved by induction on the
phrase for all stacks of frames at once. The reader never looks ahead; all that has to be known of
what comes next is that a term does not start with a token that would close or continue what is
already there.
-/

namespace TypeDescription

open Spelling

/-! ## Taking tokens one by one -/

namespace Stage

/-- The stage after a token, if the token neither completes the definition nor is a fault. -/
def take (stage : Stage) (piece : TokenKind × String) : Option Stage :=
  match stage.read { kind := piece.1, text := piece.2, line := 0, lastLine := 0 } with
  | .ok (.next stage _) => some stage
  | _ => none

/-- The stage after a sequence of tokens. -/
def takeAll (stage : Stage) (pieces : Spelling) : Option Stage := pieces.foldlM take stage

theorem takeAll_cons (stage : Stage) (piece : TokenKind × String) (pieces : Spelling) :
    stage.takeAll (piece :: pieces) = (stage.take piece).bind (·.takeAll pieces) := by
  rw [takeAll, List.foldlM_cons]
  rfl

theorem takeAll_append {stage middle : Stage} {first : Spelling} (second : Spelling)
    (taken : stage.takeAll first = some middle) :
    stage.takeAll (first ++ second) = middle.takeAll second := by
  rw [takeAll, List.foldlM_append]
  rw [takeAll] at taken
  rw [taken]
  rfl

theorem takeAll_symbol (stage : Stage) (kind : TokenKind) :
    stage.takeAll (Spelling.symbol kind) = stage.take (kind, kind.description) := by
  rw [Spelling.symbol, takeAll_cons]
  cases stage.take (kind, kind.description) <;> rfl

end Stage

open Stage

/-! ## Where a term starts -/

/-- The kinds of token that a term starts with. -/
def TokenKind.startsTerm : TokenKind → Bool
  | .docstring | .avmOpen | .consListOpen | .diffListOpen => true
  | kind => (AtomKind.ofTokenKind? kind).isSome

/-- The spelling starts with a token that starts a term. -/
def Spelling.StartsTerm (pieces : Spelling) : Prop :=
  ∃ piece rest, pieces = piece :: rest ∧ piece.1.startsTerm = true

theorem Spelling.StartsTerm.append {first : Spelling} (starts : first.StartsTerm)
    (second : Spelling) : (first ++ second).StartsTerm := by
  obtain ⟨piece, rest, rfl, kind⟩ := starts
  exact ⟨piece, rest ++ second, rfl, kind⟩

private theorem starts_term_of_doc {doc : Option String} {core : Spelling} (starts : core.StartsTerm) :
    (ofDoc doc ++ core).StartsTerm := by
  cases doc with
  | none => exact starts
  | some doc => exact ⟨(.docstring, doc), core, rfl, rfl⟩

theorem Phrase.spelling_starts_term (p : Phrase) : p.spelling.StartsTerm := by
  cases p with
  | atom kind text doc =>
    rw [Phrase.spelling]
    exact starts_term_of_doc ⟨_, [], rfl, by cases kind <;> rfl⟩
  | avm features doc =>
    rw [Phrase.spelling, List.append_assoc, List.append_assoc]
    exact starts_term_of_doc ⟨_, _, rfl, rfl⟩
  | cons items ending doc =>
    rw [Phrase.spelling, List.append_assoc, List.append_assoc]
    exact starts_term_of_doc ⟨_, _, rfl, rfl⟩
  | diff items doc =>
    rw [Phrase.spelling, List.append_assoc, List.append_assoc]
    exact starts_term_of_doc ⟨_, _, rfl, rfl⟩

theorem spelling_of_series_starts_term (terms : Series Phrase) :
    (spellingOfSeries terms).StartsTerm := by
  obtain ⟨first, rest⟩ := terms
  cases rest with
  | nil =>
    rw [spelling_of_series, joined, Series.toList, List.map_singleton, List.intercalate_singleton]
    exact first.spelling_starts_term
  | cons second rest =>
    rw [spelling_of_series, joined, Series.toList, List.map_cons, List.map_cons,
      List.intercalate_cons_cons, List.append_assoc]
    exact first.spelling_starts_term.append _

/-- Where two stages agree on the tokens that start terms, they agree on what starts with one. -/
private theorem takeAll_of_starts_term {pieces : Spelling} (starts : pieces.StartsTerm)
    (stage inner : Stage)
    (agree : ∀ kind text, kind.startsTerm = true → stage.take (kind, text) = inner.take (kind, text)) :
    stage.takeAll pieces = inner.takeAll pieces := by
  obtain ⟨⟨kind, text⟩, rest, rfl, first⟩ := starts
  rw [takeAll_cons, takeAll_cons, agree kind text first]

/-! ## Reading phrases -/

/-- The spelling of a phrase is read as this phrase wherever a term is due. -/
def Phrase.Readable (p : Phrase) : Prop :=
  ∀ head frames before,
    (Stage.body head frames (.term { before, doc := none })).takeAll p.spelling =
      some (.body head frames (.joined (Series.ofLast before p)))

/-- The spelling of joined terms is read as these terms wherever a conjunction is due. -/
def SeriesReadable (terms : Series Phrase) : Prop :=
  ∀ head frames,
    (Stage.body head frames (.term .start)).takeAll (spellingOfSeries terms) =
      some (.body head frames (.joined terms))

private theorem take_doc (head : Head) (frames : List Frame) (before : List Phrase)
    (doc : Option String) :
    (Stage.body head frames (.term { before, doc := none })).takeAll (ofDoc doc) =
      some (.body head frames (.term { before, doc })) := by
  cases doc <;> rfl

section Sequences

variable (f : α → Spelling) (separator : TokenKind) (due : List α → Stage)
  (complete : List α → α → Stage)
  (separated : ∀ before a,
    (complete before a).take (separator, separator.description) = some (due (before ++ [a])))

include separated

/-- Elements with separators after them are read one by one, if an element leads from where one is
due to where one is complete, and the separator leads on to the next. -/
private theorem takeAll_opened (elements : List α)
    (element : ∀ before, ∀ a ∈ elements, (due before).takeAll (f a) = some (complete before a))
    (before : List α) :
    (due before).takeAll (Spelling.opened separator (elements.map f)) =
      some (due (before ++ elements)) := by
  induction elements generalizing before with
  | nil => rw [List.append_nil]; rfl
  | cons a rest ih =>
    have taken := element before a (List.mem_cons_self ..)
    have next : (complete before a).takeAll (symbol separator) = some (due (before ++ [a])) := by
      rw [takeAll_symbol, separated]
    have tail := ih (fun before b member => element before b (List.mem_cons_of_mem _ member))
      (before ++ [a])
    rw [List.map_cons, Spelling.opened, List.flatMap_cons, List.append_assoc,
      takeAll_append _ taken, takeAll_append _ next, ← Spelling.opened, tail]
    simp

/-- The last element of a sequence needs no separator. -/
private theorem takeAll_joined (elements : List α) (last : α)
    (element : ∀ before, ∀ a ∈ elements ++ [last],
      (due before).takeAll (f a) = some (complete before a)) :
    (due []).takeAll (joined separator ((elements ++ [last]).map f)) =
      some (complete elements last) := by
  have taken := takeAll_opened f separator due complete separated elements
    (fun before a member => element before a (List.mem_append_left _ member)) []
  rw [List.map_append, List.map_singleton, joined_concat, takeAll_append _ taken]
  exact element elements last (by simp)

end Sequences

private theorem series_eq_ofLast {s : Series α} {before : List α} {last : α}
    (same : s.toList = before ++ [last]) : s = Series.ofLast before last := by
  obtain ⟨first, rest⟩ := s
  cases before with
  | nil => cases same; rfl
  | cons a before => cases same; rfl

private theorem toList_ne_nil (s : Series α) : s.toList ≠ [] := List.cons_ne_nil _ _

/-- Joined terms are read if each of them is. -/
theorem series_readable {terms : Series Phrase} (readable : terms.All Phrase.Readable) :
    SeriesReadable terms := by
  intro head frames
  obtain ⟨before, last, shape⟩ := exists_concat_of_ne_nil (toList_ne_nil terms)
  have taken := takeAll_joined Phrase.spelling .ampersand
    (fun before => .body head frames (.term { before, doc := none }))
    (fun before p => .body head frames (.joined (Series.ofLast before p)))
    (fun before p => by rw [← Series.toList_ofLast]; rfl) before last
    (fun before p member => readable p (shape ▸ member) head frames before)
  rw [spelling_of_series, shape, series_eq_ofLast shape]
  exact taken

section Structures

variable (head : Head) (frames : List Frame) (slot : Slot)

/-! ### Features -/

private theorem take_names (done : List (Series String × Series Phrase)) (names : Series String) :
    (Stage.body head frames (.featureName slot done [])).takeAll (ofNames names) =
      some (.body head frames (.featureNamed slot done names)) := by
  obtain ⟨before, last, shape⟩ := exists_concat_of_ne_nil (toList_ne_nil names)
  have taken := takeAll_joined (fun name => [(.identifier, name)]) .dot
    (fun before => .body head frames (.featureName slot done before))
    (fun before name => .body head frames (.featureNamed slot done (Series.ofLast before name)))
    (fun before name => by rw [← Series.toList_ofLast]; rfl) before last
    (fun before name _ => rfl)
  rw [ofNames, shape, series_eq_ofLast shape]
  exact taken

/-- Where a feature is due after others. -/
private def featureDue : List (Series String × Series Phrase) → Point
  | [] => .avmStart slot
  | feature :: rest => .featureName slot (feature :: rest) []

private theorem take_feature_name (done : List (Series String × Series Phrase)) (names : Series String)
    (pieces : Spelling) :
    (Stage.body head frames (featureDue slot done)).takeAll (ofNames names ++ pieces) =
      (Stage.body head frames (.featureName slot done [])).takeAll (ofNames names ++ pieces) := by
  obtain ⟨rest, shape⟩ : ∃ rest, ofNames names = (.identifier, names.first) :: rest := by
    obtain ⟨first, rest⟩ := names
    cases rest with
    | nil => exact ⟨[], rfl⟩
    | cons second rest => exact ⟨_, rfl⟩
  rw [shape, List.cons_append, takeAll_cons, takeAll_cons]
  cases done <;> rfl

private theorem take_feature (done : List (Series String × Series Phrase))
    {feature : Series String × Series Phrase} (readable : SeriesReadable feature.2) :
    (Stage.body head frames (featureDue slot done)).takeAll (spellingOfFeature feature) =
      some (.body head (.feature slot done feature.1 :: frames) (.joined feature.2)) := by
  have named := take_names head frames slot done feature.1
  -- After a complete name only a dot does anything else than start the value.
  have inside := takeAll_of_starts_term (spelling_of_series_starts_term feature.2)
    (.body head frames (.featureNamed slot done feature.1))
    (.body head (.feature slot done feature.1 :: frames) (.term .start))
    (fun kind text starts => by cases kind <;> first | rfl | cases starts)
  rw [spellingOfFeature, take_feature_name, takeAll_append _ named, inside, readable]

private theorem take_avm {features : List (Series String × Series Phrase)}
    (readable : ∀ feature ∈ features, SeriesReadable feature.2) :
    (Stage.body head frames (.term slot)).takeAll
        (symbol .avmOpen ++ (joined .comma (features.map spellingOfFeature) ++ symbol .avmClose)) =
      some (.body head frames (.joined (slot.fill (.avm features)))) := by
  have start : (Stage.body head frames (.term slot)).takeAll (symbol .avmOpen) =
      some (.body head frames (featureDue slot [])) := rfl
  rw [takeAll_append _ start]
  by_cases none : features = []
  · subst none
    rfl
  · obtain ⟨before, last, rfl⟩ := exists_concat_of_ne_nil none
    have taken := takeAll_joined spellingOfFeature .comma
      (fun before => .body head frames (featureDue slot before))
      (fun before feature =>
        .body head (.feature slot before feature.1 :: frames) (.joined feature.2))
      (fun before feature => by cases before <;> rfl) before last
      (fun before feature member => take_feature head frames slot before (readable feature member))
    rw [takeAll_append _ taken]
    rfl

/-! ### Items -/

variable (shape : ListShape)

/-- Where an item is due after others. -/
private def itemDue : List (Series Phrase) → Point
  | [] => .listStart slot shape
  | item :: rest => .listItem slot shape (item :: rest)

private theorem take_item (done : List (Series Phrase)) {item : Series Phrase}
    (readable : SeriesReadable item) :
    (Stage.body head frames (itemDue slot shape done)).takeAll (spellingOfSeries item) =
      some (.body head (.item slot shape done :: frames) (.joined item)) := by
  -- Where an item is due, only an ellipsis or the end does anything else than start it.
  have inside := takeAll_of_starts_term (spelling_of_series_starts_term item)
    (.body head frames (itemDue slot shape done))
    (.body head (.item slot shape done :: frames) (.term .start))
    (fun kind text starts => by
      cases done <;> cases shape <;> cases kind <;> first | rfl | cases starts)
  rw [inside, readable]

private theorem take_items {items : List (Series Phrase)}
    (readable : ∀ item ∈ items, SeriesReadable item) :
    (Stage.body head frames (.listStart slot shape)).takeAll
        (Spelling.opened .comma (items.map spellingOfSeries)) =
      some (.body head frames (itemDue slot shape items)) :=
  takeAll_opened spellingOfSeries .comma
    (fun before => .body head frames (itemDue slot shape before))
    (fun before item => .body head (.item slot shape before :: frames) (.joined item))
    (fun before item => by cases before <;> rfl) items
    (fun before item member => take_item head frames slot shape before (readable item member)) []

/-- The list that is closed after its items. -/
private def closedList : ListShape → List (Series Phrase) → Option String → Phrase
  | .cons, items => .cons items .closed
  | .diff, items => .diff items

private theorem take_closed {items : List (Series Phrase)}
    (readable : ∀ item ∈ items, SeriesReadable item) :
    (Stage.body head frames (.listStart slot shape)).takeAll
        (joined .comma (items.map spellingOfSeries) ++ symbol shape.close) =
      some (.body head frames (.joined (slot.fill (closedList shape items)))) := by
  by_cases none : items = []
  · subst none
    cases shape <;> rfl
  · obtain ⟨before, last, rfl⟩ := exists_concat_of_ne_nil none
    have taken := take_items head frames slot shape
      (fun item member => readable item (List.mem_append_left [last] member))
    have lastTaken := take_item head frames slot shape before (readable last (by simp))
    rw [List.map_append, List.map_singleton, joined_concat, List.append_assoc,
      takeAll_append _ taken, takeAll_append _ lastTaken]
    cases shape <;> rfl

private theorem take_open {items : List (Series Phrase)}
    (readable : ∀ item ∈ items, SeriesReadable item) :
    (Stage.body head frames (.listStart slot .cons)).takeAll
        (joined .comma (items.map spellingOfSeries ++ [symbol .ellipsis]) ++
          symbol .consListClose) =
      some (.body head frames (.joined (slot.fill (.cons items .ellipsis)))) := by
  have taken := take_items head frames slot .cons readable
  rw [joined_concat, List.append_assoc, takeAll_append _ taken]
  cases items <;> rfl

private theorem take_dotted {items : List (Series Phrase)} {last tail : Series Phrase}
    (readable : ∀ item ∈ items, SeriesReadable item) (lastReadable : SeriesReadable last)
    (tailReadable : SeriesReadable tail) :
    (Stage.body head frames (.listStart slot .cons)).takeAll
        (joined .comma (items.map spellingOfSeries ++
            [spellingOfSeries last ++ symbol .dot ++ spellingOfSeries tail]) ++
          symbol .consListClose) =
      some (.body head frames (.joined (slot.fill (.cons items (.dotted last tail))))) := by
  have taken := take_items head frames slot .cons readable
  have lastTaken := take_item head frames slot .cons items lastReadable
  have dot : (Stage.body head (.item slot .cons items :: frames) (.joined last)).takeAll
      (symbol .dot) =
      some (.body head (.tail slot .cons items last :: frames) (.term .start)) := rfl
  have tailTaken := tailReadable head (.tail slot .cons items last :: frames)
  rw [joined_concat, List.append_assoc, List.append_assoc, List.append_assoc,
    takeAll_append _ taken, takeAll_append _ lastTaken, takeAll_append _ dot,
    takeAll_append _ tailTaken]
  rfl

end Structures

/-- The spelling of a phrase is read as this phrase wherever a term is due. -/
theorem Phrase.readable (p : Phrase) : p.Readable := by
  induction p using Phrase.induct with
  | atom kind text doc =>
    intro head frames before
    rw [Phrase.spelling, takeAll_append _ (take_doc head frames before doc)]
    cases kind <;> rfl
  | avm features doc ih =>
    intro head frames before
    rw [Phrase.spelling, spellings_of_features, List.append_assoc, List.append_assoc,
      takeAll_append _ (take_doc head frames before doc)]
    exact take_avm head frames { before, doc }
      (fun feature member => series_readable (ih feature member))
  | cons items ending doc ih ihEnding =>
    intro head frames before
    have readable : ∀ item ∈ items, SeriesReadable item :=
      fun item member => series_readable (ih item member)
    have start : (Stage.body head frames (.term { before, doc })).takeAll (symbol .consListOpen) =
        some (.body head frames (.listStart { before, doc } .cons)) := rfl
    rw [Phrase.spelling, spellings_of_items, List.append_assoc, List.append_assoc,
      takeAll_append _ (take_doc head frames before doc), takeAll_append _ start]
    cases ending with
    | closed =>
      rw [Ending.spellings, List.append_nil]
      exact take_closed head frames { before, doc } .cons readable
    | ellipsis => exact take_open head frames { before, doc } readable
    | dotted last tail =>
      obtain ⟨lastReadable, tailReadable⟩ := ihEnding last tail rfl
      exact take_dotted head frames { before, doc } readable (series_readable lastReadable)
        (series_readable tailReadable)
  | diff items doc ih =>
    intro head frames before
    have start : (Stage.body head frames (.term { before, doc })).takeAll (symbol .diffListOpen) =
        some (.body head frames (.listStart { before, doc } .diff)) := rfl
    rw [Phrase.spelling, spellings_of_items, List.append_assoc, List.append_assoc,
      takeAll_append _ (take_doc head frames before doc), takeAll_append _ start]
    exact take_closed head frames { before, doc } .diff
      (fun item member => series_readable (ih item member))

/-! ## Reading definitions -/

private theorem take_patterns (old : Bool) (side : AffixSide) (before patterns : List String) :
    (Stage.affixes old side before).takeAll
        (patterns.map fun pattern => (.affixPattern, pattern)) =
      some (.affixes old side (before ++ patterns)) := by
  induction patterns generalizing before with
  | nil => rw [List.append_nil]; rfl
  | cons pattern rest ih =>
    have next : (Stage.affixes old side before).take (.affixPattern, pattern) =
        some (.affixes old side (before ++ [pattern])) := rfl
    rw [List.map_cons, takeAll_cons, next, Option.bind_some, ih]
    simp

/-- After the operator and the affixes the body starts as it does where a term is due. -/
private theorem take_head (head : Head) :
    ∃ stage, Stage.operator.takeAll head.spelling = some stage ∧
      ∀ kind text, kind.startsTerm = true →
        stage.take (kind, text) = (Stage.body head [] (.term .start)).take (kind, text) := by
  rcases head with _ | ⟨old, _ | ⟨side, patterns⟩⟩
  · exact ⟨_, rfl, fun kind text starts => rfl⟩
  · refine ⟨.opened old, by cases old <;> rfl, fun kind text starts => ?_⟩
    cases kind <;> first | rfl | cases starts
  · refine ⟨.affixes old side patterns, ?_, fun kind text starts => ?_⟩
    · have operator : Stage.operator.take (.definitionOperator, if old then ":<" else ":=") =
          some (.opened old) := by cases old <;> rfl
      have marker : (Stage.opened old).take (.affixMarker, side.word) =
          some (.affixes old side []) := by cases side <;> rfl
      rw [Head.spelling, takeAll_cons, operator, Option.bind_some, takeAll_cons, marker,
        Option.bind_some]
      exact take_patterns old side [] patterns
    · cases kind <;> first | rfl | cases starts

private theorem body_starts_term (body : Body) : body.spelling.StartsTerm := by
  cases body with
  | docOnly doc => exact ⟨_, [], rfl, rfl⟩
  | joined terms doc => exact (spelling_of_series_starts_term terms).append _

private theorem take_body (head : Head) (body : Body) :
    ∃ stage, (Stage.body head [] (.term .start)).takeAll body.spelling = some stage ∧
      ∀ t : Token, t.kind = .dot → stage.read t = .ok (.complete head body) := by
  cases body with
  | docOnly doc =>
    refine ⟨.body head [] (.term { before := [], doc := some doc }), rfl, fun t kind => ?_⟩
    simp [Stage.read, readBody, readTerm, kind]
  | joined terms doc =>
    have readable : SeriesReadable terms := series_readable (fun p _ => p.readable)
    have taken := readable head []
    cases doc with
    | none =>
      refine ⟨.body head [] (.joined terms), ?_, fun t kind => ?_⟩
      · rw [Body.spelling, takeAll_append _ taken]
        rfl
      · simp [Stage.read, readBody, readAfterTerm, kind]
    | some doc =>
      refine ⟨.documented head terms doc, ?_, fun t kind => ?_⟩
      · rw [Body.spelling, takeAll_append _ taken]
        rfl
      · simp [Stage.read, kind]

/-- The spelling of a declaration after its identifier is read up to the dot, and the dot completes
this very declaration. -/
theorem take_declaration (head : Head) (body : Body) :
    ∃ stage, Stage.operator.takeAll (head.spelling ++ body.spelling) = some stage ∧
      ∀ t : Token, t.kind = .dot → stage.read t = .ok (.complete head body) := by
  obtain ⟨start, headTaken, agree⟩ := take_head head
  obtain ⟨stage, bodyTaken, completes⟩ := take_body head body
  refine ⟨stage, ?_, completes⟩
  rw [takeAll_append _ headTaken, takeAll_of_starts_term (body_starts_term body) _ _ agree, bodyTaken]

end TypeDescription
