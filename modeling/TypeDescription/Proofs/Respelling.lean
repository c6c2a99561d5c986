import Mathlib.Data.List.Forall2
import TypeDescription.Proofs.Phrases
import TypeDescription.Declaration.Reader

/-!
Feature names in another spelling. What is read of a definition is kept as it is written, and it is
looked at again only for what it means: its values, and the mentions in it. Two states of the reader
agree if whatever they hold means the same; they take the same tokens, and they still agree after a
feature name that is spelled in two ways, as long as the upper case is the same. So the events are the
same, and so is all that goes with them.
-/

namespace TypeDescription

/-! ## The same meaning -/

/-- Two written things mean the same: they have the same value, and the same mentions wherever they
stand. -/
structure MeanSame (value : α → β) (mentions : Path → α → List Mention) (a b : α) : Prop where
  value : value a = value b
  mentions : ∀ here, mentions here a = mentions here b

/-- Terms that mean the same. -/
abbrev SameTerm : Phrase → Phrase → Prop := MeanSame Phrase.term Phrase.mentions

abbrev SameTerms : List Phrase → List Phrase → Prop := MeanSame valuesOfTerms mentionsOfTerms

abbrev SameSeries : Series Phrase → Series Phrase → Prop := MeanSame valueOfSeries mentionsOfSeries

abbrev SameFeatures : List (Series String × Series Phrase) → List (Series String × Series Phrase) → Prop :=
  MeanSame valuesOfFeatures mentionsOfFeatures

abbrev SameItems : List (Series Phrase) → List (Series Phrase) → Prop :=
  MeanSame valuesOfItems fun chain => mentionsOfItems chain 0

/-- Ends of lists of one sort that mean the same. -/
inductive SameEnding : Ending → Ending → Prop where
  | refl (ending : Ending) : SameEnding ending ending
  | dotted {last last' tail tail' : Series Phrase} (lasts : SameSeries last last')
    (tails : SameSeries tail tail') : SameEnding (.dotted last tail) (.dotted last' tail')

namespace MeanSame

theorem refl {value : α → β} {mentions : Path → α → List Mention} (a : α) : MeanSame value mentions a a :=
  ⟨rfl, fun _ => rfl⟩

variable {terms terms' : Series Phrase}

theorem of_series (same : SameSeries terms terms') : SameTerms terms.toList terms'.toList where
  value := by
    have values := same.value
    rwa [value_of_series, value_of_series, ← values_of_terms, ← values_of_terms] at values
  mentions here := by
    have mentions := same.mentions here
    rwa [mentions_of_series, mentions_of_series, ← mentions_of_terms, ← mentions_of_terms] at mentions

theorem fill {before before' : List Phrase} {p p' : Phrase} (earlier : SameTerms before before')
    (last : SameTerm p p') : SameSeries (Series.ofLast before p) (Series.ofLast before' p') where
  value := by
    have values := earlier.value
    rw [values_of_terms, values_of_terms] at values
    rw [value_of_series, value_of_series, Series.toList_ofLast, Series.toList_ofLast, List.map_append,
      List.map_append, values, List.map_singleton, List.map_singleton, last.value]
  mentions here := by
    have mentions := earlier.mentions here
    rw [mentions_of_terms, mentions_of_terms] at mentions
    rw [mentions_of_series, mentions_of_series, Series.toList_ofLast, Series.toList_ofLast,
      List.flatMap_append, List.flatMap_append, mentions, List.flatMap_singleton, List.flatMap_singleton,
      last.mentions]

theorem feature {done done' : List (Series String × Series Phrase)} {names names' : Series String}
    (earlier : SameFeatures done done') (path : featurePath names = featurePath names')
    (last : SameSeries terms terms') :
    SameFeatures (done ++ [(names, terms)]) (done' ++ [(names', terms')]) where
  value := by
    have values := earlier.value
    rw [values_of_features, values_of_features] at values
    simp only [values_of_features, List.map_append, List.map_singleton, values, path, last.value]
  mentions here := by
    have mentions := earlier.mentions here
    rw [mentions_of_features, mentions_of_features] at mentions
    simp only [mentions_of_features, List.flatMap_append, List.flatMap_singleton, mentions, path, last.mentions]

theorem length_items {items items' : List (Series Phrase)} (same : SameItems items items') :
    items.length = items'.length := by
  have lengths := congrArg List.length same.value
  rwa [values_of_items, values_of_items, List.length_map, List.length_map] at lengths

theorem item {done done' : List (Series Phrase)} (earlier : SameItems done done')
    (last : SameSeries terms terms') : SameItems (done ++ [terms]) (done' ++ [terms']) where
  value := by
    have values := earlier.value
    rw [values_of_items, values_of_items] at values
    simp only [values_of_items, List.map_append, List.map_singleton, values, last.value]
  mentions chain := by
    have mentions := earlier.mentions chain
    simp only [mentions_of_items] at mentions
    simp only [mentions_of_items, List.zipIdx_append, List.flatMap_append, mentions, List.zipIdx_singleton,
      List.flatMap_singleton, last.mentions, earlier.length_items]

theorem avm {features features' : List (Series String × Series Phrase)} (same : SameFeatures features features')
    (doc : Option String) : SameTerm (.avm features doc) (.avm features' doc) where
  value := by rw [Phrase.term, Phrase.term, same.value]
  mentions here := by rw [Phrase.mentions, Phrase.mentions, same.mentions]

/-- The end of a list means the same however many items are before it. -/
theorem of_ending {ending ending' : Ending} (ends : SameEnding ending ending') (length : Nat) :
    MeanSame Ending.values (fun here ending => ending.mentions here length) ending ending' := by
  cases ends with
  | refl => exact refl _
  | dotted lasts tails => exact {
      value := by rw [Ending.values, Ending.values, lasts.value, tails.value]
      mentions := fun here => by rw [Ending.mentions, Ending.mentions, lasts.mentions, tails.mentions] }

theorem cons {items items' : List (Series Phrase)} {ending ending' : Ending} (same : SameItems items items')
    (ends : SameEnding ending ending') (doc : Option String) :
    SameTerm (.cons items ending doc) (.cons items' ending' doc) where
  value := by rw [Phrase.term, Phrase.term, same.value, (of_ending ends 0).value]
  mentions here := by
    have mentions := same.mentions here
    rw [Phrase.mentions, Phrase.mentions, mentions, same.length_items, (of_ending ends _).mentions]

theorem diff {items items' : List (Series Phrase)} (same : SameItems items items') (doc : Option String) :
    SameTerm (.diff items doc) (.diff items' doc) where
  value := by rw [Phrase.term, Phrase.term, same.value]
  mentions here := by
    have mentions := same.mentions (here ++ [diffListChain])
    rw [Phrase.mentions, Phrase.mentions, mentions, same.length_items]

end MeanSame

/-! ## States that agree -/

structure Slot.Same (slot slot' : Slot) : Prop where
  before : SameTerms slot.before slot'.before
  doc : slot.doc = slot'.doc

inductive Frame.Same : Frame → Frame → Prop where
  | feature {slot slot' : Slot} {done done' : List (Series String × Series Phrase)}
    {names names' : Series String} (slots : slot.Same slot') (features : SameFeatures done done')
    (path : featurePath names = featurePath names') :
    Same (.feature slot done names) (.feature slot' done' names')
  | item {slot slot' : Slot} {done done' : List (Series Phrase)} (shape : ListShape)
    (slots : slot.Same slot') (items : SameItems done done') :
    Same (.item slot shape done) (.item slot' shape done')
  | tail {slot slot' : Slot} {done done' : List (Series Phrase)} {last last' : Series Phrase}
    (shape : ListShape) (slots : slot.Same slot') (items : SameItems done done')
    (lasts : SameSeries last last') :
    Same (.tail slot shape done last) (.tail slot' shape done' last')

inductive Point.Same : Point → Point → Prop where
  | term {slot slot' : Slot} (slots : slot.Same slot') : Same (.term slot) (.term slot')
  | joined {terms terms' : Series Phrase} (same : SameSeries terms terms') :
    Same (.joined terms) (.joined terms')
  | avmStart {slot slot' : Slot} (slots : slot.Same slot') : Same (.avmStart slot) (.avmStart slot')
  | featureName {slot slot' : Slot} {done done' : List (Series String × Series Phrase)}
    {names names' : List String} (slots : slot.Same slot') (features : SameFeatures done done')
    (path : names.map upperCase = names'.map upperCase) :
    Same (.featureName slot done names) (.featureName slot' done' names')
  | featureNamed {slot slot' : Slot} {done done' : List (Series String × Series Phrase)}
    {names names' : Series String} (slots : slot.Same slot') (features : SameFeatures done done')
    (path : featurePath names = featurePath names') :
    Same (.featureNamed slot done names) (.featureNamed slot' done' names')
  | listStart {slot slot' : Slot} (shape : ListShape) (slots : slot.Same slot') :
    Same (.listStart slot shape) (.listStart slot' shape)
  | listItem {slot slot' : Slot} {done done' : List (Series Phrase)} (shape : ListShape)
    (slots : slot.Same slot') (items : SameItems done done') :
    Same (.listItem slot shape done) (.listItem slot' shape done')
  | listOpen {slot slot' : Slot} {done done' : List (Series Phrase)} (shape : ListShape)
    (slots : slot.Same slot') (items : SameItems done done') :
    Same (.listOpen slot shape done) (.listOpen slot' shape done')

/-- Only what is held of a body can be spelled in two ways. -/
inductive Stage.Same : Stage → Stage → Prop where
  | operator : Same .operator .operator
  | opened (old : Bool) : Same (.opened old) (.opened old)
  | affixes (old : Bool) (side : AffixSide) (patterns : List String) :
    Same (.affixes old side patterns) (.affixes old side patterns)
  | body (head : Head) {frames frames' : List Frame} {point point' : Point}
    (stack : List.Forall₂ Frame.Same frames frames') (points : point.Same point') :
    Same (.body head frames point) (.body head frames' point')
  | documented (head : Head) {terms terms' : Series Phrase} (same : SameSeries terms terms') (doc : String) :
    Same (.documented head terms doc) (.documented head terms' doc)

/-- Bodies with the same docstring that mean the same. -/
structure Body.Same (body body' : Body) : Prop where
  conjunction : body.conjunction = body'.conjunction
  mentions : body.mentions = body'.mentions
  doc : body.doc = body'.doc

inductive Progress.Same : Progress → Progress → Prop where
  | next {stage stage' : Stage} (stages : stage.Same stage') (old : Option OldSpelling) :
    Same (.next stage old) (.next stage' old)
  | complete (head : Head) {body body' : Body} (bodies : body.Same body') :
    Same (.complete head body) (.complete head body')

/-- The same reason to refuse a token, or what agrees after it. -/
inductive SameAnswer (Same : β → β → Prop) : Except ε β → Except ε β → Prop where
  | refused (reason : ε) : SameAnswer Same (.error reason) (.error reason)
  | taken {b b' : β} (same : Same b b') : SameAnswer Same (.ok b) (.ok b')

namespace Stage

variable (head : Head) {frames frames' : List Frame} {slot slot' : Slot} (shape : ListShape)
  {done done' : List (Series Phrase)} (t : Token)

theorem go_on_same (stack : List.Forall₂ Frame.Same frames frames') {point point' : Point}
    (points : point.Same point') :
    SameAnswer Progress.Same (goOn head frames point) (goOn head frames' point') :=
  .taken (.next (.body head stack points) none)

theorem fill_same (slots : slot.Same slot') {term term' : Option String → Phrase}
    (same : ∀ doc, SameTerm (term doc) (term' doc)) :
    (Point.joined (slot.fill term)).Same (.joined (slot'.fill term')) := by
  rw [Slot.fill, Slot.fill, slots.doc]
  exact .joined (slots.before.fill (same _))

theorem read_term_same (stack : List.Forall₂ Frame.Same frames frames') (slots : slot.Same slot') :
    SameAnswer Progress.Same (readTerm head frames slot t) (readTerm head frames' slot' t) := by
  have atom (kind : AtomKind) : (Point.joined (slot.fill (.atom kind t.text))).Same
      (.joined (slot'.fill (.atom kind t.text))) := fill_same slots fun _ => .refl _
  obtain ⟨kind, text, line, lastLine⟩ := t
  obtain ⟨before, doc⟩ := slot
  obtain ⟨before', doc'⟩ := slot'
  obtain ⟨terms, rfl⟩ := slots
  cases kind with
  | docstring =>
    cases doc with
    | none => exact go_on_same head stack (.term ⟨terms, rfl⟩)
    | some d => exact .refused _
  | dot =>
    have lengths := congrArg List.length terms.value
    rw [values_of_terms, values_of_terms, List.length_map, List.length_map] at lengths
    cases doc with
    | none => cases before <;> cases before' <;> exact .refused _
    | some d =>
      cases before <;> cases before' <;> first | cases lengths | skip
      · cases stack with
        | nil => exact .taken (.complete head ⟨rfl, rfl, rfl⟩)
        | cons => exact .refused _
      · exact .refused _
  | avmOpen => exact go_on_same head stack (.avmStart ⟨terms, rfl⟩)
  | consListOpen => exact go_on_same head stack (.listStart .cons ⟨terms, rfl⟩)
  | diffListOpen => exact go_on_same head stack (.listStart .diff ⟨terms, rfl⟩)
  | identifier => exact .taken (.next (.body head stack (atom .name)) none)
  | quotedSymbol => exact .taken (.next (.body head stack (atom .quoted)) _)
  | string => exact .taken (.next (.body head stack (atom .string)) none)
  | regex => exact .taken (.next (.body head stack (atom .regex)) none)
  | coreference => exact .taken (.next (.body head stack (atom .coreference)) none)
  | _ => exact .refused _

theorem read_feature_name_same (stack : List.Forall₂ Frame.Same frames frames') (slots : slot.Same slot')
    {features features' : List (Series String × Series Phrase)} (same : SameFeatures features features')
    {names names' : List String} (path : names.map upperCase = names'.map upperCase) {t' : Token}
    (kinds : t.kind = t'.kind) (spelled : upperCase t.text = upperCase t'.text) :
    SameAnswer Progress.Same (readFeatureName head frames slot features names t)
      (readFeatureName head frames' slot' features' names' t') := by
  rw [readFeatureName, readFeatureName, ← kinds]
  split
  · refine go_on_same head stack (.featureNamed slots same ?_)
    rw [featurePath, featurePath, Series.toList_ofLast, Series.toList_ofLast, List.map_append, List.map_append,
      path, List.map_singleton, List.map_singleton, spelled]
  · exact .refused _

theorem read_item_same (stack : List.Forall₂ Frame.Same frames frames') (slots : slot.Same slot')
    (items : SameItems done done') :
    SameAnswer Progress.Same (readItem head frames slot shape done t)
      (readItem head frames' slot' shape done' t) := by
  rw [readItem, readItem]
  split
  · exact go_on_same head stack (.listOpen shape slots items)
  · exact read_term_same head t (.cons (.item shape slots items) stack) ⟨.refl _, rfl⟩

theorem close_list_same (stack : List.Forall₂ Frame.Same frames frames') (slots : slot.Same slot')
    (items : SameItems done done') {ending ending' : Ending} (ends : SameEnding ending ending') :
    SameAnswer Progress.Same (closeList head frames slot shape done ending)
      (closeList head frames' slot' shape done' ending') := by
  cases shape with
  | cons => exact go_on_same head stack (fill_same slots fun doc => items.cons ends doc)
  | diff =>
    cases ends with
    | dotted => exact .refused _
    | refl =>
      cases ending with
      | closed => exact go_on_same head stack (fill_same slots fun doc => items.diff doc)
      | _ => exact .refused _

theorem read_after_term_same (stack : List.Forall₂ Frame.Same frames frames') {terms terms' : Series Phrase}
    (same : SameSeries terms terms') :
    SameAnswer Progress.Same (readAfterTerm head frames terms t) (readAfterTerm head frames' terms' t) := by
  have joined {frames frames' : List Frame} (stack : List.Forall₂ Frame.Same frames frames') :
      SameAnswer Progress.Same (goOn head frames (.term { before := terms.toList, doc := none }))
        (goOn head frames' (.term { before := terms'.toList, doc := none })) :=
    go_on_same head stack (.term ⟨same.of_series, rfl⟩)
  obtain ⟨kind, text, line, lastLine⟩ := t
  cases stack with
  | nil =>
    cases kind with
    | ampersand => exact joined .nil
    | docstring => exact .taken (.next (.documented head same text) none)
    | dot => exact .taken (.complete head ⟨same.value, same.mentions [], rfl⟩)
    | _ => exact .refused _
  | cons frame stack =>
    cases frame with
    | feature slots features path =>
      cases kind with
      | ampersand => exact joined (.cons (.feature slots features path) stack)
      | comma => exact go_on_same head stack (.featureName slots (features.feature path same) rfl)
      | avmClose => exact go_on_same head stack (fill_same slots fun doc => (features.feature path same).avm doc)
      | _ => exact .refused _
    | item shape slots items =>
      cases kind with
      | ampersand => exact joined (.cons (.item shape slots items) stack)
      | comma => exact go_on_same head stack (.listItem shape slots (items.item same))
      | dot => exact go_on_same head (.cons (.tail shape slots items same) stack) (.term ⟨.refl _, rfl⟩)
      | consListClose =>
        cases shape with
        | cons => exact close_list_same head .cons stack slots (items.item same) (.refl .closed)
        | diff => exact .refused _
      | diffListClose =>
        cases shape with
        | cons => exact .refused _
        | diff => exact close_list_same head .diff stack slots (items.item same) (.refl .closed)
      | _ => cases shape <;> exact .refused _
    | tail shape slots items lasts =>
      cases kind with
      | ampersand => exact joined (.cons (.tail shape slots items lasts) stack)
      | consListClose =>
        cases shape with
        | cons => exact close_list_same head .cons stack slots items (.dotted lasts same)
        | diff => exact .refused _
      | diffListClose =>
        cases shape with
        | cons => exact .refused _
        | diff => exact close_list_same head .diff stack slots items (.dotted lasts same)
      | _ => cases shape <;> exact .refused _

theorem read_body_same (stack : List.Forall₂ Frame.Same frames frames') {point point' : Point}
    (points : point.Same point') :
    SameAnswer Progress.Same (readBody head frames point t) (readBody head frames' point' t) := by
  cases points with
  | term slots => exact read_term_same head t stack slots
  | joined same => exact read_after_term_same head t stack same
  | avmStart slots =>
    rw [readBody, readBody]
    split
    · exact go_on_same head stack (fill_same slots fun doc => .avm (.refl []) doc)
    · exact read_feature_name_same head t stack slots (.refl []) rfl rfl rfl
  | featureName slots features path => exact read_feature_name_same head t stack slots features path rfl rfl
  | featureNamed slots features path =>
    rw [readBody, readBody]
    split
    · exact go_on_same head stack (.featureName slots features path)
    · exact read_term_same head t (.cons (.feature slots features path) stack) ⟨.refl _, rfl⟩
  | listStart shape slots =>
    rw [readBody, readBody]
    split
    · exact close_list_same head shape stack slots (.refl []) (.refl _)
    · exact read_item_same head shape t stack slots (.refl [])
  | listItem shape slots items => exact read_item_same head shape t stack slots items
  | listOpen shape slots items =>
    rw [readBody, readBody]
    split
    · exact close_list_same head shape stack slots items (.refl _)
    · exact .refused _

/-- A token does the same to definitions that agree. -/
theorem read_same {stage stage' : Stage} (stages : stage.Same stage') :
    SameAnswer Progress.Same (stage.read t) (stage'.read t) := by
  have start (head : Head) : SameAnswer Progress.Same (readTerm head [] .start t) (readTerm head [] .start t) :=
    read_term_same head t .nil ⟨.refl [], rfl⟩
  cases stages with
  | operator =>
    rw [read]
    split
    · split <;> exact .taken (.next (.opened _) _)
    · exact go_on_same .addendum .nil (.term ⟨.refl [], rfl⟩)
    · exact .refused _
  | opened old =>
    rw [read]
    split
    · split
      · exact .taken (.next (.affixes ..) none)
      · exact .refused _
    · exact start _
  | affixes old side patterns =>
    rw [read]
    split
    · exact .taken (.next (.affixes ..) none)
    · exact start _
  | body head stack points => exact read_body_same head t stack points
  | documented head same doc =>
    rw [read, read]
    split
    · exact .taken (.complete head ⟨same.value, same.mentions [], rfl⟩)
    · exact .refused _

end Stage

namespace Reader

/-- Two readers agree if they are on the same line of the same definition, and it means the same so far. -/
inductive Same : Reader → Reader → Prop where
  | idle : Same idle idle
  | within (identifier : String) (line : Nat) {stage stage' : Stage} (stages : stage.Same stage') :
    Same (within identifier line stage) (within identifier line stage')

end Reader

/-- What two steps bring about if they end in readers that agree. -/
structure Step.Same (step step' : Step) : Prop where
  reader : step.reader.Same step'.reader
  event : step.event = step'.event
  warning : step.warning = step'.warning

theorem Declaration.event_of_same (identifier : String) (head : Head) {body body' : Body}
    (bodies : body.Same body') :
    Declaration.event { identifier, head, body } = Declaration.event { identifier, head, body := body' } := by
  simp only [Declaration.event, Declaration.isAddendum, bodies.conjunction, bodies.mentions, bodies.doc]
  rfl

namespace Reader

variable {reader reader' : Reader}

theorem within_same {identifier : String} {line : Nat} {stage stage' : Stage} {t t' : Token}
    (stages : stage.Same stage') (kinds : t.kind = t'.kind) (lines : t.line = t'.line)
    (answers : SameAnswer Progress.Same (stage.read t) (stage'.read t')) :
    SameAnswer Step.Same ((within identifier line stage).read t) ((within identifier line stage').read t') := by
  rw [read, read, Token.isComment, Token.isComment, ← kinds]
  split
  · exact .taken ⟨.within identifier line stages, rfl, rfl⟩
  · rw [readWithin, readWithin, lines]
    generalize stage.read t = answer at answers ⊢
    generalize stage'.read t' = answer' at answers ⊢
    cases answers with
    | refused cause => exact .refused _
    | taken progress =>
      cases progress with
      | next later old => exact .taken ⟨.within identifier t'.line later, rfl, rfl⟩
      | @complete head body body' bodies =>
        simp only [bind, Except.bind, Declaration.event_of_same identifier head bodies]
        cases Declaration.event { identifier, head, body := body' } with
        | error cause => exact .refused _
        | ok event => exact .taken ⟨.idle, rfl, rfl⟩

/-- Readers that agree give the same answer to a token. -/
theorem read_same (readers : reader.Same reader') (t : Token) :
    SameAnswer Step.Same (reader.read t) (reader'.read t) := by
  cases readers with
  | within identifier line stages => exact within_same stages rfl rfl (Stage.read_same t stages)
  | idle =>
    obtain ⟨kind, text, line, lastLine⟩ := t
    cases kind with
    | lineComment | blockComment | letterSet => exact .taken ⟨.idle, rfl, rfl⟩
    | identifier => exact .taken ⟨.within text line .operator, rfl, rfl⟩
    | _ => exact .refused _

/-! ## Names in another spelling -/

/-- Is a feature name due? -/
def featureNameDue : Reader → Bool
  | within _ _ (.body _ _ (.avmStart _)) | within _ _ (.body _ _ (.featureName ..)) => true
  | _ => false

/-- A token, or another spelling of it: an identifier where a feature name is due may be any text with
the same upper case. -/
inductive Respells (reader : Reader) (t : Token) : Token → Prop where
  | same : Respells reader t t
  | name (due : reader.featureNameDue = true) (kind : t.kind = .identifier) {text : String}
    (upper : upperCase text = upperCase t.text) : Respells reader t { t with text }

/-- Tokens that are all taken, with the feature names among them in another spelling. -/
inductive Respelled : Reader → List Token → List Token → Prop where
  | nil {reader : Reader} : Respelled reader [] []
  | cons {reader : Reader} {t t' : Token} {step : Step} {rest rest' : List Token}
    (respells : reader.Respells t t') (taken : reader.read t = .ok step) (later : Respelled step.reader rest rest') :
    Respelled reader (t :: rest) (t' :: rest')

/-- Readers that agree still agree after a feature name in two spellings. -/
theorem read_respelled (readers : reader.Same reader') {t t' : Token} (respells : reader.Respells t t') :
    SameAnswer Step.Same (reader.read t) (reader'.read t') := by
  cases respells with
  | same => exact read_same readers t
  | name due kind upper =>
    cases readers with
    | idle => cases due
    | within identifier line stages =>
      refine within_same stages rfl rfl ?_
      cases stages with
      | body head stack points =>
        cases points with
        | avmStart slots =>
          rw [Stage.read, Stage.readBody, if_neg (by simp [kind]), Stage.read, Stage.readBody,
            if_neg (by simp [kind])]
          exact Stage.read_feature_name_same head t stack slots (.refl []) rfl rfl upper.symm
        | featureName slots features path =>
          exact Stage.read_feature_name_same head t stack slots features path rfl upper.symm
        | _ => cases due
      | _ => cases due

/-- Feature names may be spelled as one likes: what is read of the tokens is the same. -/
theorem run_respelled (fault : Option Error) {tokens tokens' : List Token}
    (respelled : Respelled reader tokens tokens') (readers : reader.Same reader') :
    run fault reader' tokens' = run fault reader tokens := by
  induction respelled generalizing reader' with
  | nil =>
    cases readers with
    | idle => rfl
    | within => cases fault <;> rfl
  | cons respells taken later ih =>
    have answers := read_respelled readers respells
    rw [taken] at answers
    rw [run, run, taken]
    generalize reader'.read _ = answer' at answers ⊢
    cases answers with
    | taken same =>
      simp only [ih same.reader, Outcome.after, same.event, same.warning]

end Reader

end TypeDescription
