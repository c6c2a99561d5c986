import TypeDescription.Proofs.Interruptions
import TypeDescription.Proofs.Itemizing

/-!
Old spellings make no difference but for the warnings. A declaration has a modern form, which is
spelled as it is itself, with every old spelling replaced by the one that should be written now, and
which means the same. So tokens that are read as items are read as the same events once their old
spellings are replaced, and then there is nothing left to warn of.
-/

namespace TypeDescription

open Spelling

/-! ## Modern tokens -/

/-- A token that is written as it should be, without its place: `:=` for `:<`, and an identifier
for a quoted symbol. -/
def modernPiece (piece : TokenKind × String) : TokenKind × String :=
  match piece.1 with
  | .definitionOperator => (.definitionOperator, if piece.2 = ":<" then ":=" else piece.2)
  | .quotedSymbol => (.identifier, piece.2)
  | _ => piece

/-- A token that is written as it should be. -/
def Token.modern (t : Token) : Token :=
  { t with kind := (modernPiece t.bare).1, text := (modernPiece t.bare).2 }

theorem modern_piece_of_kind {kind : TokenKind} (text : String)
    (plain : kind ≠ .definitionOperator ∧ kind ≠ .quotedSymbol) :
    modernPiece (kind, text) = (kind, text) := by
  obtain ⟨operator, symbol⟩ := plain
  cases kind <;> first | rfl | contradiction

namespace Token

theorem modern_of_kind {t : Token} {kind : TokenKind} (same : t.kind = kind)
    (plain : kind ≠ .definitionOperator ∧ kind ≠ .quotedSymbol) : t.modern = t := by
  subst same
  rw [modern, bare, modern_piece_of_kind t.text plain]

theorem is_comment_modern (t : Token) : t.modern.isComment = t.isComment := by
  obtain ⟨kind, text, line, lastLine⟩ := t
  cases kind <;> rfl

theorem old_spelling_of_modern (t : Token) : t.modern.oldSpelling? = none := by
  obtain ⟨kind, text, line, lastLine⟩ := t
  cases kind <;> try rfl
  by_cases old : text = ":<" <;> simp [modern, bare, modernPiece, oldSpelling?, old]

end Token

theorem significant_modern (tokens : List Token) :
    significant (tokens.map Token.modern) = (significant tokens).map modernPiece := by
  rw [significant, significant, List.filter_map, List.map_map, List.map_map]
  simp only [Function.comp_def, Token.is_comment_modern]
  rfl

/-! ## Modern phrases -/

/-- The kind of atom that should be written. -/
def AtomKind.modern : AtomKind → AtomKind
  | .quoted => .name
  | kind => kind

mutual

/-- A phrase without quoted symbols. -/
def Phrase.modern : Phrase → Phrase
  | .atom kind text doc => .atom kind.modern text doc
  | .avm features doc => .avm (modernFeatures features) doc
  | .cons items ending doc => .cons (modernItems items) ending.modern doc
  | .diff items doc => .diff (modernItems items) doc

/-- An ending without quoted symbols. -/
def Ending.modern : Ending → Ending
  | .closed => .closed
  | .ellipsis => .ellipsis
  | .dotted last tail => .dotted (modernSeries last) (modernSeries tail)

/-- Joined terms without quoted symbols. -/
def modernSeries : Series Phrase → Series Phrase
  | ⟨first, rest⟩ => ⟨first.modern, modernTerms rest⟩

/-- Terms without quoted symbols. -/
def modernTerms : List Phrase → List Phrase
  | [] => []
  | p :: rest => p.modern :: modernTerms rest

/-- Features without quoted symbols. -/
def modernFeatures : List (Series String × Series Phrase) → List (Series String × Series Phrase)
  | [] => []
  | (names, value) :: rest => (names, modernSeries value) :: modernFeatures rest

/-- Items without quoted symbols. -/
def modernItems : List (Series Phrase) → List (Series Phrase)
  | [] => []
  | item :: rest => modernSeries item :: modernItems rest

end

theorem modern_terms (terms : List Phrase) : modernTerms terms = terms.map Phrase.modern := by
  induction terms with
  | nil => rfl
  | cons p rest ih => rw [modernTerms, ih, List.map_cons]

theorem modern_features (features : List (Series String × Series Phrase)) :
    modernFeatures features = features.map fun feature => (feature.1, modernSeries feature.2) := by
  induction features with
  | nil => rfl
  | cons feature rest ih => rw [modernFeatures, ih, List.map_cons]

theorem modern_items (items : List (Series Phrase)) : modernItems items = items.map modernSeries := by
  induction items with
  | nil => rfl
  | cons item rest ih => rw [modernItems, ih, List.map_cons]

theorem to_list_modern (terms : Series Phrase) :
    (modernSeries terms).toList = terms.toList.map Phrase.modern := by
  rw [modernSeries, modern_terms]
  rfl

/-! ## How modern phrases are spelled -/

private theorem modern_symbol {kind : TokenKind}
    (plain : kind ≠ .definitionOperator ∧ kind ≠ .quotedSymbol) :
    (symbol kind).map modernPiece = symbol kind := by
  rw [symbol, List.map_singleton, modern_piece_of_kind _ plain]

private theorem modern_doc (doc : Option String) : (ofDoc doc).map modernPiece = ofDoc doc := by
  cases doc <;> rfl

private theorem modern_joined {separator : TokenKind}
    (plain : separator ≠ .definitionOperator ∧ separator ≠ .quotedSymbol) (parts : List Spelling) :
    (joined separator parts).map modernPiece = joined separator (parts.map (·.map modernPiece)) := by
  induction parts with
  | nil => rfl
  | cons part rest ih =>
    cases rest with
    | nil => simp [joined, List.intercalate_singleton]
    | cons next rest =>
      simp only [joined, List.map_cons, List.intercalate_cons_cons, List.map_append,
        modern_symbol plain] at ih ⊢
      rw [ih]

private theorem modern_names (names : Series String) : (ofNames names).map modernPiece = ofNames names := by
  rw [ofNames, modern_joined (by decide), List.map_map]
  rfl

/-- What has to be shown of the spelling of joined terms. -/
private def SpelledModern (terms : Series Phrase) : Prop :=
  spellingOfSeries (modernSeries terms) = (spellingOfSeries terms).map modernPiece

private theorem spelled_modern_of_all {terms : Series Phrase}
    (ih : terms.All fun p => p.modern.spelling = p.spelling.map modernPiece) : SpelledModern terms := by
  rw [SpelledModern, spelling_of_series, spelling_of_series, to_list_modern, modern_joined (by decide),
    List.map_map, List.map_map]
  exact congrArg (joined .ampersand) (List.map_congr_left ih)

/-- A modern phrase is spelled with the modern tokens. -/
theorem Phrase.spelling_modern (p : Phrase) : p.modern.spelling = p.spelling.map modernPiece := by
  have spelled {parts : List (Series Phrase)}
      (ih : ∀ item ∈ parts, item.All fun p => p.modern.spelling = p.spelling.map modernPiece) :
      spellingsOfItems (modernItems parts) = (spellingsOfItems parts).map (·.map modernPiece) := by
    rw [modern_items, spellings_of_items, spellings_of_items, List.map_map, List.map_map]
    exact List.map_congr_left fun item member => spelled_modern_of_all (ih item member)
  induction p using Phrase.induct with
  | atom kind text doc =>
    rw [Phrase.modern, Phrase.spelling, Phrase.spelling, List.map_append, modern_doc]
    cases kind <;> rfl
  | avm features doc ih =>
    have inside : spellingsOfFeatures (modernFeatures features) =
        (spellingsOfFeatures features).map (·.map modernPiece) := by
      rw [modern_features, spellings_of_features, spellings_of_features, List.map_map, List.map_map]
      refine List.map_congr_left fun feature member => ?_
      have value : SpelledModern feature.2 := spelled_modern_of_all (ih feature member)
      rw [Function.comp_apply, Function.comp_apply, spellingOfFeature, spellingOfFeature,
        List.map_append, modern_names, value]
    rw [Phrase.modern, Phrase.spelling, Phrase.spelling, inside]
    simp (disch := decide) only [List.map_append, modern_doc, modern_symbol, modern_joined]
  | cons items ending doc ih ihEnding =>
    have ends : ending.modern.spellings = ending.spellings.map (·.map modernPiece) := by
      cases ending with
      | closed => rfl
      | ellipsis => rfl
      | dotted last tail =>
        obtain ⟨ihLast, ihTail⟩ := ihEnding last tail rfl
        have lastSpelled : SpelledModern last := spelled_modern_of_all ihLast
        have tailSpelled : SpelledModern tail := spelled_modern_of_all ihTail
        rw [Ending.modern, Ending.spellings, Ending.spellings, lastSpelled, tailSpelled]
        simp [modern_symbol]
    rw [Phrase.modern, Phrase.spelling, Phrase.spelling, spelled ih, ends, ← List.map_append]
    simp (disch := decide) only [List.map_append, modern_doc, modern_symbol, modern_joined]
  | diff items doc ih =>
    rw [Phrase.modern, Phrase.spelling, Phrase.spelling, spelled ih]
    simp (disch := decide) only [List.map_append, modern_doc, modern_symbol, modern_joined]

/-! ## What modern phrases mean -/

/-- A modern phrase has the same value. -/
theorem Phrase.term_modern (p : Phrase) : p.modern.term = p.term := by
  have series {terms : Series Phrase} (ih : terms.All fun p => p.modern.term = p.term) :
      valueOfSeries (modernSeries terms) = valueOfSeries terms := by
    rw [value_of_series, value_of_series, to_list_modern, List.map_map]
    exact List.map_congr_left ih
  have values {items : List (Series Phrase)}
      (ih : ∀ item ∈ items, item.All fun p => p.modern.term = p.term) :
      valuesOfItems (modernItems items) = valuesOfItems items := by
    rw [modern_items, values_of_items, values_of_items, List.map_map]
    exact List.map_congr_left fun item member => series (ih item member)
  induction p using Phrase.induct with
  | atom kind text doc => cases kind <;> rfl
  | avm features doc ih =>
    have inside : valuesOfFeatures (modernFeatures features) = valuesOfFeatures features := by
      rw [modern_features, values_of_features, values_of_features, List.map_map]
      refine List.map_congr_left fun feature member => ?_
      simp only [Function.comp_apply, series (ih feature member)]
    rw [Phrase.modern, Phrase.term, Phrase.term, inside]
  | cons items ending doc ih ihEnding =>
    have ends : ending.modern.values = ending.values := by
      cases ending with
      | closed => rfl
      | ellipsis => rfl
      | dotted last tail =>
        obtain ⟨ihLast, ihTail⟩ := ihEnding last tail rfl
        rw [Ending.modern, Ending.values, Ending.values, series ihLast, series ihTail]
    rw [Phrase.modern, Phrase.term, Phrase.term, values ih, ends]
  | diff items doc ih => rw [Phrase.modern, Phrase.term, Phrase.term, values ih]

/-- A modern phrase has the same mentions. -/
theorem Phrase.mentions_modern (p : Phrase) : ∀ here, p.modern.mentions here = p.mentions here := by
  have series {terms : Series Phrase}
      (ih : terms.All fun p => ∀ here, p.modern.mentions here = p.mentions here) (here : Path) :
      mentionsOfSeries here (modernSeries terms) = mentionsOfSeries here terms := by
    rw [mentions_of_series, mentions_of_series, to_list_modern, List.flatMap_map]
    exact List.flatMap_congr fun p member => ih p member here
  have mentioned {items : List (Series Phrase)}
      (ih : ∀ item ∈ items, item.All fun p => ∀ here, p.modern.mentions here = p.mentions here)
      (chain : Path) (index : Nat) :
      mentionsOfItems chain index (modernItems items) = mentionsOfItems chain index items := by
    induction items generalizing index with
    | nil => rfl
    | cons item rest more =>
      obtain ⟨first, later⟩ := List.forall_mem_cons.mp ih
      rw [modernItems, mentionsOfItems, mentionsOfItems, series first, more later]
  induction p using Phrase.induct with
  | atom kind text doc => intro here; cases kind <;> rfl
  | avm features doc ih =>
    intro here
    rw [Phrase.modern, Phrase.mentions, Phrase.mentions, modern_features, mentions_of_features,
      mentions_of_features, List.flatMap_map]
    exact List.flatMap_congr fun feature member => series (ih feature member) _
  | cons items ending doc ih ihEnding =>
    intro here
    have length : (modernItems items).length = items.length := by rw [modern_items, List.length_map]
    have ends : ending.modern.mentions here items.length = ending.mentions here items.length := by
      cases ending with
      | closed => rfl
      | ellipsis => rfl
      | dotted last tail =>
        obtain ⟨ihLast, ihTail⟩ := ihEnding last tail rfl
        rw [Ending.modern, Ending.mentions, Ending.mentions, series ihLast, series ihTail]
    rw [Phrase.modern, Phrase.mentions, Phrase.mentions, mentioned ih, length, ends]
  | diff items doc ih =>
    intro here
    have length : (modernItems items).length = items.length := by rw [modern_items, List.length_map]
    rw [Phrase.modern, Phrase.mentions, Phrase.mentions, mentioned ih, length]

/-! ## Modern items -/

/-- A head that is written as it should be. -/
def Head.modern : Head → Head
  | .addendum => .addendum
  | .definition _ affixes => .definition false affixes

/-- A body without quoted symbols. -/
def Body.modern : Body → Body
  | .docOnly doc => .docOnly doc
  | .joined terms doc => .joined (modernSeries terms) doc

namespace Declaration

/-- A declaration that is written as it should be. -/
def modern (d : Declaration) : Declaration :=
  { d with head := d.head.modern, body := d.body.modern }

private theorem spelling_of_head_modern (head : Head) :
    head.modern.spelling = head.spelling.map modernPiece := by
  rcases head with _ | ⟨old, _ | ⟨side, patterns⟩⟩
  · rfl
  · cases old <;> rfl
  · have pieces : (patterns.map fun pattern => (TokenKind.affixPattern, pattern)).map modernPiece =
        patterns.map fun pattern => (TokenKind.affixPattern, pattern) := by
      rw [List.map_map]
      rfl
    cases old <;> simp only [Head.modern, Head.spelling, List.map_cons, pieces] <;> rfl

private theorem spelling_of_body_modern (body : Body) :
    body.modern.spelling = body.spelling.map modernPiece := by
  cases body with
  | docOnly doc => rfl
  | joined terms doc =>
    have terms : SpelledModern terms := spelled_modern_of_all fun p _ => p.spelling_modern
    rw [Body.modern, Body.spelling, Body.spelling, terms, List.map_append, modern_doc]

/-- A modern declaration is spelled with the modern tokens. -/
theorem spelling_modern (d : Declaration) : d.modern.spelling = d.spelling.map modernPiece := by
  rw [spelling, spelling, modern, spelling_of_head_modern, spelling_of_body_modern]
  simp (disch := decide) only [List.map_append, List.cons_append, List.map_cons, modern_symbol]
  rfl

/-- A modern declaration defines the same. -/
theorem event_modern (d : Declaration) : d.modern.event = d.event := by
  obtain ⟨identifier, head, body⟩ := d
  have conjunction : body.modern.conjunction = body.conjunction := by
    cases body with
    | docOnly doc => rfl
    | joined terms doc =>
      rw [Body.modern, Body.conjunction, Body.conjunction, value_of_series, value_of_series,
        to_list_modern, List.map_map]
      exact List.map_congr_left fun p _ => p.term_modern
  have mentions : body.modern.mentions = body.mentions := by
    cases body with
    | docOnly doc => rfl
    | joined terms doc =>
      rw [Body.modern, Body.mentions, Body.mentions, mentions_of_series, mentions_of_series,
        to_list_modern, List.flatMap_map]
      exact List.flatMap_congr fun p _ => p.mentions_modern []
  have doc : body.modern.doc = body.doc := by cases body <;> rfl
  rcases head with _ | ⟨old, _ | ⟨side, patterns⟩⟩
  all_goals
    simp only [modern, event, isAddendum, Head.modern, conjunction, mentions, doc]
    rfl

end Declaration

namespace Item

/-- An item that is written as it should be. -/
def modern : Item → Item
  | comment t => comment t
  | letterSet t => letterSet t
  | definition d name inner dot =>
    definition d.modern name.modern (inner.map Token.modern) dot.modern

theorem event_modern (item : Item) : item.modern.event = item.event := by
  cases item with
  | comment t => rfl
  | letterSet t => rfl
  | definition d name inner dot => exact d.event_modern

theorem tokens_modern {item : Item} (grammatical : item.Grammatical) :
    item.modern.tokens = item.tokens.map Token.modern := by
  cases item with
  | comment t =>
    have plain : t.modern = t := by
      have comment : t.isComment = true := grammatical
      refine Token.modern_of_kind rfl ?_
      constructor <;> intro same <;> rw [Token.isComment, same] at comment <;> cases comment
    rw [modern, tokens, List.map_singleton, plain]
  | letterSet t =>
    rw [modern, tokens, List.map_singleton, Token.modern_of_kind grammatical (by decide)]
  | definition d name inner dot => simp [modern, tokens]

theorem grammatical_modern {item : Item} (grammatical : item.Grammatical) : item.modern.Grammatical := by
  cases item with
  | comment t => exact grammatical
  | letterSet t => exact grammatical
  | definition d name inner dot =>
    obtain ⟨plain, plainDot, spelled⟩ := grammatical
    refine ⟨(Token.is_comment_modern name).trans plain, (Token.is_comment_modern dot).trans plainDot, ?_⟩
    rw [Declaration.spelling_modern, ← spelled, ← significant_modern]
    simp

theorem warnings_modern {item : Item} (grammatical : item.Grammatical) : item.modern.warnings = [] := by
  rw [warnings, tokens_modern grammatical, List.filterMap_map]
  exact List.filterMap_eq_nil_iff.mpr fun t _ =>
    Token.warning_of_plain _ (Token.old_spelling_of_modern t)

end Item

/-! ## Reading modern tokens -/

/-- The items of a source that is read without an error. -/
theorem derives_of_read_all {source : Source} (accepted : source.readAll.error = none) :
    ∃ items, Derives items source.scan.tokens ∧ (∀ item ∈ items, item.Meaningful) ∧
      source.readAll.events.map .ok = items.map Item.event ∧
      source.readAll.warnings = items.flatMap Item.warnings := by
  have standard := scan_tokens_standard source
  obtain ⟨items, rest, itemizes⟩ := exists_itemizes standard
  obtain ⟨events, warnings, error⟩ := itemizes.run source.scan.error standard
  rw [← Source.readAll] at events warnings error
  obtain rfl := (itemizes.run_rest source.scan.error standard).2 (error.symm.trans accepted)
  refine ⟨items, ⟨fun item member => (itemizes.valid item member).1, ?_⟩,
    fun item member => (itemizes.valid item member).2, events, ?_⟩
  · rw [← itemizes.written, List.append_nil]
  · rw [warnings, Reader.run, List.append_nil]

/-- Tokens that are read as items are read in the same way once they are written as they should be,
and nothing is left to warn of. -/
theorem run_modern {items : List Item} {tokens : List Token} {events : List Event}
    (derives : Derives items tokens) (meaningful : ∀ item ∈ items, item.Meaningful)
    (read : events.map .ok = items.map Item.event) :
    Reader.run none .idle (tokens.map Token.modern) = { events, warnings := [], error := none } := by
  have valid : ∀ item ∈ items.map Item.modern, item.Grammatical ∧ item.Meaningful := by
    intro item' member
    obtain ⟨item, inside, rfl⟩ := List.mem_map.mp member
    obtain ⟨e, meant⟩ := item.meaningful_iff_event.mp (meaningful item inside)
    exact ⟨Item.grammatical_modern (derives.grammatical item inside),
      item.modern.meaningful_iff_event.mpr ⟨e, item.event_modern.trans meant⟩⟩
  have written : (items.map Item.modern).flatMap Item.tokens = tokens.map Token.modern := by
    rw [← derives.written, List.flatMap_map, List.map_flatMap]
    exact List.flatMap_congr fun item member => Item.tokens_modern (derives.grammatical item member)
  have quiet : (items.map Item.modern).flatMap Item.warnings = [] := by
    rw [List.flatMap_map]
    exact List.flatMap_eq_nil_iff.mpr fun item member =>
      Item.warnings_modern (derives.grammatical item member)
  obtain ⟨events', same, run⟩ := run_of_items none valid []
  have alike : events' = events := by
    have maps : events'.map Except.ok = events.map (Except.ok (ε := Cause)) := by
      rw [same, read, List.map_map]
      exact List.map_congr_left fun item _ => item.event_modern
    exact List.map_injective_iff.mpr (fun _ _ => Except.ok.inj) maps
  rw [List.append_nil, written, quiet] at run
  rw [run, alike, Reader.run, List.append_nil]
  rfl

/-- Warnings are exact, and old spellings are equivalent to the new ones: of a source that is read
without an error every token in an old spelling is warned of, item by item, with its line and the
identifier of its definition; and its tokens with the new spellings in their place give the same
events and no warnings. -/
theorem read_warnings_exact (options : ReadOptions) {source : Source}
    (accepted : (source.read options).error = none) :
    (∃ items, Derives items source.scan.tokens ∧ (∀ item ∈ items, item.Meaningful) ∧
      (source.read options).warnings = items.flatMap Item.warnings) ∧
    options.apply (Reader.run none .idle (source.scan.tokens.map Token.modern)) =
      { source.read options with warnings := [] } := by
  have whole := (read_error_eq_none_iff options source).mp accepted
  obtain ⟨items, derives, meaningful, events, warnings⟩ := derives_of_read_all whole
  refine ⟨⟨items, derives, meaningful, (read_warnings options source).trans warnings⟩, ?_⟩
  have same : Reader.run none .idle (source.scan.tokens.map Token.modern) =
      { source.readAll with warnings := [] } := by
    rw [run_modern derives meaningful events]
    simp only [whole]
  rw [same, read_eq_apply]
  obtain ⟨name, comments⟩ := options
  cases name <;> cases comments <;> rfl

/-- Quoted symbols on three lines, after an operator in its old spelling. A comment stands between
them, and the list has a dotted end. -/
theorem read_warnings_exact_of_nested_symbols :
    let source := Source.ofText "a :< 'b & ; c\n[ X < 'd . 'e > ].\nf := g & 'h."
    (source.read .plain).error = none ∧
      (source.read .plain).warnings.map (·.line) = [1, 1, 2, 2, 3] ∧
      (source.read .plain).warnings.map (·.identifier) =
        [some "a", some "a", some "a", some "a", some "f"] ∧
      ReadOptions.plain.apply (Reader.run none .idle (source.scan.tokens.map Token.modern)) =
        { source.read .plain with warnings := [] } := by
  intro source
  have accepted : (source.read .plain).error = none := by decide +kernel
  exact ⟨accepted, by decide +kernel, by decide +kernel, (read_warnings_exact .plain accepted).2⟩

end TypeDescription
