import TypeDescription.Proofs.TokenTexts
import TypeDescription.Proofs.Writing

/-!
Reading a definition again. The text of a definition that was read is that of a declaration with
the same value, and this text scans into the tokens of the declaration, wherever its line feeds
are. Which tags are shared depends on the value alone. So the text is read as a single definition,
which says the same as the first.
-/

namespace TypeDescription

open Lexeme Spelling

/-! ## Bodies -/

private theorem scans_dot : Scans ['.'] (Spelling.symbol .dot) := by
  have fixed : TokenKind.dot.isSymbol = true := rfl
  exact Scans.symbol fixed (fun _ same => nomatch same) (fun _ same => nomatch same) .done

/-- What is written after the operator scans into a body, its dot included. -/
def ScansBody (d : Definition) (body : Body) : Prop :=
  Starts d.bodyText.toList ∧ Scans d.bodyText.toList (body.spelling ++ symbol .dot)

private theorem scans_doc_only {d : Definition} {doc : String} (empty : d.conjunction = [])
    (documented : d.doc = some doc) (isDoc : IsDoc doc) : ScansBody d (.docOnly doc) := by
  have text : d.bodyText = "\"\"\"" ++ doc ++ "\"\"\"" ++ "." := by
    have none : Conjunction.text [] = "" := rfl
    rw [Definition.bodyText, documented, empty, none]
    simp
  have shape : d.bodyText.toList = ("\"\"\"" ++ doc ++ "\"\"\"").toList ++ ['.'] := by
    rw [text, String.toList_append]
    rfl
  refine ⟨?_, ?_⟩
  · rw [shape]
    exact (starts_doc doc).append _
  · rw [shape]
    exact scans_dot.doc isDoc

private theorem scans_joined {d : Definition} {terms : Series Phrase}
    (value : valueOfSeries terms = d.conjunction) (documented : ∀ doc ∈ d.doc, IsDoc doc)
    (printed : Printed d.conjunction.text (spellingOfSeries terms)) :
    ScansBody d (.joined terms d.doc) := by
  have some : d.conjunction ≠ [] := value ▸ value_of_series_ne_nil terms
  have dot : Breaks ['.'] := breaks_of_mark (.inr rfl) []
  cases doc : d.doc with
  | none =>
    have shape : d.bodyText.toList = d.conjunction.text.toList ++ ['.'] := by
      rw [Definition.bodyText, doc]
      simp
    refine ⟨?_, ?_⟩
    · rw [shape]
      exact printed.starts.append _
    · rw [shape, Body.spelling]
      have scans := printed.scans _ _ dot scans_dot
      simpa [ofDoc] using scans
  | some text =>
    have shape : d.bodyText.toList = d.conjunction.text.toList ++
        ('\n' :: ' ' :: ' ' :: (("\"\"\"" ++ text ++ "\"\"\"").toList ++ ['.'])) := by
      have several : d.conjunction.isEmpty = false := by simpa using some
      rw [Definition.bodyText, doc, several]
      simp
    have isDoc := documented text doc
    have line : Breaks _ := ((starts_doc text).append ['.']).line
    refine ⟨?_, ?_⟩
    · rw [shape]
      exact printed.starts.append _
    · rw [shape, Body.spelling]
      have scans := printed.scans _ _ line (scans_dot.doc isDoc).space.space.line
      simpa [ofDoc] using scans

/-- The text of a body that was read scans into a body with the same value, whose terms are in the
order of that value. -/
private theorem exists_body {d : Definition} {body : Body}
    (tokens : ∀ piece ∈ body.spelling, Rewritable piece) (value : d.conjunction = body.conjunction)
    (documented : d.doc = body.doc) (plain : ∀ place ∈ d.conjunction.placed, place.2.plainTail = true) :
    ∃ body' : Body, body'.conjunction = d.conjunction ∧ body'.doc = d.doc ∧ body'.InOrder ∧
      ScansBody d body' := by
  cases body with
  | docOnly doc =>
    have isDoc : IsDoc doc := tokens _ (List.mem_singleton_self _)
    exact ⟨.docOnly doc, value.symm, documented.symm, trivial, scans_doc_only value documented isDoc⟩
  | joined terms doc =>
    rw [Body.spelling] at tokens
    rw [Body.conjunction] at value
    rw [Conjunction.placed, placed_in_terms, value, value_of_series, List.flatMap_map] at plain
    have isDoc : ∀ text ∈ d.doc, IsDoc text := by
      intro text member
      refine tokens (.docstring, text) (List.mem_append_right _ ?_)
      rw [documented, Option.mem_def, Body.doc] at member
      rw [member]
      exact List.mem_singleton_self _
    have writable : ∀ t ∈ d.conjunction, t.Writable := by
      intro t member
      rw [value, value_of_series] at member
      obtain ⟨p, inTerms, rfl⟩ := List.mem_map.mp member
      refine Phrase.writable (fun piece inPhrase => ?_) [] fun place placed => ?_
      · exact tokens piece (List.mem_append_left _ (subset_spelling_of_series inTerms inPhrase))
      · exact plain place (List.mem_flatMap_of_mem inTerms placed)
    have nonempty : d.conjunction ≠ [] := value ▸ value_of_series_ne_nil terms
    obtain ⟨terms', value', inOrder, printed⟩ := Conjunction.printable nonempty fun t member =>
      (writable t member).printable
    exact ⟨.joined terms' d.doc, value', rfl, inOrder, scans_joined value' isDoc printed⟩

/-! ## Definitions -/

private theorem scans_name {identifier : String} (token : Rewritable (.identifier, identifier))
    {s : List Char} {pieces : Spelling} (breaks : Breaks s) (scans : Scans s pieces) :
    Scans (identifier.toList ++ s) ((.identifier, identifier) :: pieces) :=
  .name token.1 token.2 breaks.1 breaks.2 scans

/-- How a definition is written again: with the new spelling of its operator. -/
private def headOf (d : Definition) : Head :=
  if d.isAddendum then .addendum else .definition false none

private theorem scans_definition {d : Definition} {body : Body}
    (token : Rewritable (.identifier, d.identifier)) (scans : ScansBody d body) :
    Scans d.text.toList (Declaration.spelling ⟨d.identifier, headOf d, body⟩) := by
  obtain ⟨starts, scans⟩ := scans
  rw [Definition.text, Declaration.spelling, headOf, String.toList_append, String.toList_append]
  cases d.isAddendum with
  | true =>
    have fixed : TokenKind.addendumOperator.isSymbol = true := rfl
    have inner := (scans.symbol_space fixed).space
    have operator : Starts (TokenKind.addendumOperator.description.toList ++ ' ' :: d.bodyText.toList) :=
      (starts_symbol fixed).append _
    have whole := scans_name token operator.space inner
    simpa [Head.spelling, TokenKind.description] using whole
  | false =>
    have operator : Starts (':' :: '=' :: ' ' :: d.bodyText.toList) :=
      ⟨':', _, rfl, by decide, by decide⟩
    have whole := scans_name token operator.space scans.space.operator.space
    simpa [Head.spelling] using whole

/-- An affix as it is written again: its two words and one space between them. -/
def spacedPattern (pattern : String) : String :=
  (affixFields pattern).1 ++ " " ++ (affixFields pattern).2

private theorem pattern_of_rewritable {pattern : String} (token : Rewritable (.affixPattern, pattern)) :
    ∃ first second, IsSpaced first second ∧
      affixFields pattern = (String.ofList first, String.ofList second) ∧
      (spacedPattern pattern).toList = first ++ ' ' :: second := by
  obtain ⟨first, second, fields, spaced⟩ := token
  refine ⟨first, second, spaced, fields, ?_⟩
  rw [spacedPattern, fields]
  simp

theorem affix_fields_spaced_pattern {pattern : String} (token : Rewritable (.affixPattern, pattern)) :
    affixFields (spacedPattern pattern) = affixFields pattern := by
  obtain ⟨first, second, spaced, fields, shape⟩ := pattern_of_rewritable token
  have white : ∀ c ∈ [' '], Unicode.isWhiteSpace c = true := by simp
  have again := affix_fields_of_spaced spaced (List.cons_ne_nil _ _) white
  have text : spacedPattern pattern = String.ofList (first ++ [' '] ++ second) := by
    apply String.toList_injective
    simp [shape]
  rw [text, again, fields]

private theorem scans_patterns {patterns : List String}
    (tokens : ∀ pattern ∈ patterns, Rewritable (.affixPattern, pattern)) {s : List Char}
    {pieces : Spelling} (scans : Scans s pieces) :
    Scans ((String.join ((patterns.map affixFields).map fun (pattern, replacement) =>
        " (" ++ pattern ++ " " ++ replacement ++ ")")).toList ++ s)
      (patterns.map (fun pattern => (.affixPattern, spacedPattern pattern)) ++ pieces) := by
  induction patterns with
  | nil => exact scans
  | cons pattern rest ih =>
    obtain ⟨token, later⟩ := List.forall_mem_cons.mp tokens
    obtain ⟨first, second, spaced, fields, shape⟩ := pattern_of_rewritable token
    have inner := (Scans.pattern spaced (ih later)).space
    have text : String.ofList (first ++ ' ' :: second) = spacedPattern pattern := by
      rw [← shape, String.ofList_toList]
    rw [text] at inner
    rw [List.map_cons, List.map_cons, List.map_cons, String.join_cons, fields]
    simpa using inner

private theorem scans_rule {r : InflectionalRule} {patterns : List String} {body : Body}
    (token : Rewritable (.identifier, r.definition.identifier))
    (affixes : r.affixes = patterns.map affixFields)
    (tokens : ∀ pattern ∈ patterns, Rewritable (.affixPattern, pattern))
    (scans : ScansBody r.definition body) :
    Scans r.text.toList (Declaration.spelling ⟨r.definition.identifier,
      .definition false (some (r.side, patterns.map spacedPattern)), body⟩) := by
  obtain ⟨starts, scans⟩ := scans
  have afterMarker := scans_patterns tokens scans.space.space.line
  have operator : Starts (':' :: '=' :: '\n' :: ('%' :: r.side.word.toList ++ ((String.join
      ((patterns.map affixFields).map fun (pattern, replacement) =>
        " (" ++ pattern ++ " " ++ replacement ++ ")")).toList ++
          ('\n' :: ' ' :: ' ' :: r.definition.bodyText.toList)))) :=
    ⟨':', _, rfl, by decide, by decide⟩
  have whole := scans_name token operator.space (Scans.marker r.side afterMarker).line.operator.space
  rw [InflectionalRule.text, affixes, Declaration.spelling, Head.spelling]
  simpa [Function.comp_def] using whole

/-! ## Reading again -/

private theorem take_comment {stage : Stage} {kind : TokenKind} {text : String}
    (comment : kind.isComment = true) : stage.take (kind, text) = none := by
  cases kind <;> cases comment
  all_goals
    cases stage with
    | operator => rfl
    | opened old => rfl
    | affixes old side patterns => rfl
    | documented head terms doc => rfl
    | body head frames point =>
      cases point with
      | joined terms => rcases frames with _ | ⟨_ | ⟨_, _ | _, _⟩ | ⟨_, _ | _, _, _⟩, _⟩ <;> rfl
      | listStart slot shape => cases shape <;> rfl
      | listOpen slot shape done => cases shape <;> rfl
      | _ => rfl

private theorem takeAll_plain {stage next : Stage} {pieces : Spelling}
    (taken : stage.takeAll pieces = some next) : ∀ piece ∈ pieces, piece.1.isComment = false := by
  induction pieces generalizing stage with
  | nil => exact fun _ member => nomatch member
  | cons piece rest ih =>
    rw [Stage.takeAll_cons, Option.bind_eq_some_iff] at taken
    obtain ⟨middle, first, later⟩ := taken
    refine List.forall_mem_cons.mpr ⟨?_, ih later⟩
    rw [← Bool.not_eq_true]
    intro comment
    rw [take_comment comment] at first
    cases first

/-- No token of a declaration is a comment. -/
theorem Declaration.spelling_plain (d : Declaration) :
    ∀ piece ∈ d.spelling, piece.1.isComment = false := by
  obtain ⟨stage, taken, -⟩ := take_declaration d.head d.body
  intro piece member
  rw [Declaration.spelling, List.cons_append, List.cons_append, List.append_assoc, List.mem_cons,
    ← List.append_assoc, List.mem_append] at member
  rcases member with rfl | member | member
  · rfl
  · exact takeAll_plain taken piece member
  · obtain rfl := List.mem_singleton.mp member
    rfl

/-- A text that scans into the tokens of a declaration is that declaration. -/
private theorem exists_definition {text : String} {d : Declaration}
    (scans : Scans text.toList d.spelling) :
    ∃ name inner dot, (Source.ofText text).scan.error = none ∧
      (Source.ofText text).scan.tokens = (Item.definition d name inner dot).tokens ∧
      (Item.definition d name inner dot).Grammatical := by
  obtain ⟨error, tokens⟩ := scans.read
  have plain : ∀ t ∈ (Source.ofText text).scan.tokens, t.isComment = false := by
    intro t member
    exact d.spelling_plain t.bare (tokens ▸ List.mem_map_of_mem member)
  have all : significant (Source.ofText text).scan.tokens = d.spelling := by
    rw [significant, List.filter_eq_self.mpr (fun t member => by simp [plain t member]), tokens]
  have cut : d.spelling = (.identifier, d.identifier) ::
      (d.head.spelling ++ d.body.spelling ++ symbol .dot) := rfl
  obtain ⟨name, later, shape, -, tokens'⟩ := List.map_eq_cons_iff.mp (tokens.trans cut)
  obtain ⟨inner, last, rfl, -, ended⟩ := List.map_eq_append_iff.mp tokens'
  obtain ⟨dot, rfl, -⟩ := List.map_eq_singleton_iff.mp ended
  rw [shape] at plain all ⊢
  refine ⟨name, inner, dot, error, rfl, plain name (List.mem_cons_self ..), ?_, all⟩
  exact plain dot (List.mem_cons_of_mem _ (List.mem_append_right _ (List.mem_singleton_self _)))

/-- Such a text is read as the event of the declaration and as nothing else. -/
private theorem read_of_scans {text : String} {d : Declaration} {e : Event}
    (scans : Scans text.toList d.spelling) (meant : d.event = .ok e) (options : ReadOptions) :
    ((Source.ofText text).read options).items = [.ok e] := by
  obtain ⟨name, inner, dot, error, tokens, grammatical⟩ := exists_definition scans
  have found := first_item_complete grammatical []
  rw [List.append_nil] at found
  have read := run_first_item none found meant
  have all : (Source.ofText text).readAll =
      { events := [e], warnings := (Item.definition d name inner dot).warnings ++ [], error := none } := by
    rw [Source.readAll, error, tokens, read]
    rfl
  have definition : e.isComment = false := d.is_comment_event meant
  obtain ⟨source, comments⟩ := options
  cases source <;> cases comments <;>
    simp [Source.read, all, Outcome.items, Outcome.withoutComments, Outcome.withSource, definition]

/-- Whether a declaration means anything depends on its value and on its operator alone. -/
private theorem event_again (d' : Declaration) {d : Declaration} {e : Event} (meant : d.event = .ok e)
    (value : d'.body.conjunction = d.body.conjunction) (addendum : d'.isAddendum = d.isAddendum) :
    ∃ sets, d'.event = .ok (d'.defined sets) := by
  obtain ⟨supported, sets, resolved, -⟩ := Declaration.event_eq_ok_iff.mp meant
  have shared := ((CoreferenceSet.resolve_eq_ok_iff d.body.mentions_regular).mp resolved).1
  have mentioned : ∀ tag path, Mention.At d'.body.mentions tag path ↔ Mention.At d.body.mentions tag path := by
    intro tag path
    rw [mentioned_iff_occurs, mentioned_iff_occurs, value]
  have shared' : ∀ tag, Mention.Shared d'.body.mentions tag := by
    intro tag path member
    obtain ⟨other, differ, member'⟩ := shared tag path ((mentioned tag path).mp member)
    exact ⟨other, differ, (mentioned tag other).mpr member'⟩
  have supported' : d'.Supported := by
    unfold Declaration.Supported at supported ⊢
    rwa [value, addendum]
  have resolved' := (CoreferenceSet.resolve_eq_ok_iff d'.body.mentions_regular).mpr ⟨shared', rfl⟩
  exact ⟨_, Declaration.event_eq_ok_iff.mpr ⟨supported', _, resolved', rfl⟩⟩

/-! ## Sources -/

/-- Two definitions say the same. Their coreference sets may be listed in another order. -/
structure Definition.Agrees (d e : Definition) : Prop where
  identifier : e.identifier = d.identifier
  isAddendum : e.isAddendum = d.isAddendum
  conjunction : e.conjunction = d.conjunction
  doc : e.doc = d.doc

/-- Two events are definitions of one kind that say the same. -/
def Event.Agrees : Event → Event → Prop
  | .definition d, .definition e => d.Agrees e
  | .rule r, .rule s => r.definition.Agrees s.definition ∧ s.side = r.side ∧ s.affixes = r.affixes
  | _, _ => False

/-- The text of a definition is read as this definition again: it is that of a declaration whose terms
are in the order of their value. -/
theorem read_again {declared : Declaration} {e : Event} {d : Definition} {printed : String}
    (tokens : ∀ piece ∈ declared.spelling, Rewritable piece) (meant : declared.event = .ok e)
    (defined : e.definition? = some d) (plain : ∀ place ∈ d.conjunction.placed, place.2.plainTail = true)
    (written : e.definitionText? = some printed) (again : ReadOptions) :
    ∃ (e' : Event) (declared' : Declaration),
      ((Source.ofText printed).read again).items = [.ok e'] ∧ e.Agrees e' ∧
      declared'.event = .ok e' ∧ declared'.body.InOrder ∧
      declared'.body.conjunction = declared.body.conjunction := by
  obtain ⟨identifier, head, body⟩ := declared
  have name : Rewritable (.identifier, identifier) := tokens _ (by simp [Declaration.spelling])
  have bodyTokens : ∀ piece ∈ body.spelling, Rewritable piece := fun piece member =>
    tokens piece (by simp [Declaration.spelling, member])
  obtain ⟨-, sets, -, rfl⟩ := Declaration.event_eq_ok_iff.mp meant
  rcases head with _ | ⟨old, _ | ⟨side, patterns⟩⟩
  all_goals
    cases defined
    cases written
    obtain ⟨body', value, doc, inOrder, scans⟩ := exists_body bodyTokens rfl rfl plain
  · have whole := scans_definition name scans
    obtain ⟨sets', meant'⟩ :=
      event_again ⟨identifier, .addendum, body'⟩ meant value rfl
    exact ⟨_, _, read_of_scans whole meant' again, ⟨rfl, rfl, value, doc⟩, meant', inOrder, value⟩
  · have whole := scans_definition name scans
    obtain ⟨sets', meant'⟩ :=
      event_again ⟨identifier, .definition false none, body'⟩ meant value rfl
    exact ⟨_, _, read_of_scans whole meant' again, ⟨rfl, rfl, value, doc⟩, meant', inOrder, value⟩
  · have affixes : ∀ pattern ∈ patterns, Rewritable (.affixPattern, pattern) := fun pattern member =>
      tokens _ (by simp [Declaration.spelling, Head.spelling, member])
    have whole := scans_rule name rfl affixes scans
    obtain ⟨sets', meant'⟩ := event_again ⟨identifier,
      .definition false (some (side, patterns.map spacedPattern)), body'⟩ meant value rfl
    have fields : (patterns.map spacedPattern).map affixFields = patterns.map affixFields := by
      rw [List.map_map]
      exact List.map_congr_left fun pattern member => affix_fields_spaced_pattern (affixes pattern member)
    exact ⟨_, _, read_of_scans whole meant' again, ⟨⟨rfl, rfl, value, doc⟩, rfl, fields⟩, meant', inOrder,
      value⟩

/-- The texts of the definitions that were read, affixes included, are read again as the same
definitions: if no quoted symbol starts with the marker of an affix, no two carriage returns stand
before a line feed, the white space of affixes is plain, and no list ends with a documented mark of
the empty list. -/
theorem read_definition_text {text : String}
    (unmarked : ∀ t ∈ (Source.ofText text).scan.tokens, t.kind = .quotedSymbol →
      ¬ Marked t.text.toList)
    (single : ¬ ['\r', '\r', '\n'] <:+: text.toList)
    (spaced : ∀ t ∈ (Source.ofText text).scan.tokens, t.kind = .affixPattern →
      (∀ c ∈ t.text.toList, Unicode.isWhiteSpace c = true → c = ' ') ∧
        ¬ ['\\', ' '] <:+: t.text.toList)
    (options again : ReadOptions) {e : Event}
    (member : e ∈ ((Source.ofText text).read options).events) {d : Definition}
    (defined : e.definition? = some d) (plain : ∀ place ∈ d.conjunction.placed, place.2.plainTail = true)
    {printed : String} (written : e.definitionText? = some printed) :
    ∃ e', ((Source.ofText printed).read again).item? 0 = some (.ok e') ∧ e.Agrees e' := by
  obtain ⟨declared, name, dot, inner, grammatical, inside, meant⟩ :=
    exists_declaration (mem_read_all_events member) defined
  have tokens : ∀ piece ∈ declared.spelling, Rewritable piece := by
    intro piece inSpelling
    obtain ⟨t, inItem, rfl⟩ := exists_token_of_spelling grammatical piece inSpelling
    exact tokens_rewritable unmarked single spaced t (inside inItem)
  obtain ⟨e', _, items, agrees, -⟩ := read_again tokens meant defined plain written again
  exact ⟨e', by rw [Outcome.item?, items]; rfl, agrees⟩

/-- A rule with an old operator, two spaces in its affix, a quoted symbol, a path of two names, a
dotted list and a docstring over two lines: written again it differs in all of them. -/
theorem read_definition_text_of_rule :
    ∃ e ∈ ((Source.ofText
        "r :< %suffix (e  ed) 'b & [ x.y < #1 . #1 > ] \"\"\"d\n\"\"\".").read .plain).events,
      e.definitionText? =
        some "r :=\n%suffix (e ed)\n  b & [ X [ Y < #1 . #1 > ] ]\n  \"\"\"d\n\"\"\"." ∧
      ∃ e', ((Source.ofText
        "r :=\n%suffix (e ed)\n  b & [ X [ Y < #1 . #1 > ] ]\n  \"\"\"d\n\"\"\".").read
          .plain).item? 0 = some (.ok e') ∧ e.Agrees e' := by
  let text := "r :< %suffix (e  ed) 'b & [ x.y < #1 . #1 > ] \"\"\"d\n\"\"\"."
  let printed := "r :=\n%suffix (e ed)\n  b & [ X [ Y < #1 . #1 > ] ]\n  \"\"\"d\n\"\"\"."
  have unmarked : ∀ t ∈ (Source.ofText text).scan.tokens, t.kind = .quotedSymbol →
      affixMarker t.text.toList = none := by decide +kernel
  have single : ¬ ['\r', '\r', '\n'] <:+: text.toList := by decide +kernel
  have fields : ∀ t ∈ (Source.ofText text).scan.tokens, t.kind = .affixPattern →
      t.text = "e  ed" := by decide +kernel
  have spaced : ∀ t ∈ (Source.ofText text).scan.tokens, t.kind = .affixPattern →
      (∀ c ∈ t.text.toList, Unicode.isWhiteSpace c = true → c = ' ') ∧
        ¬ ['\\', ' '] <:+: t.text.toList := by
    intro t member kind
    rw [fields t member kind]
    have plain : "e  ed".toList.all (fun c => !Unicode.isWhiteSpace c || c == ' ') = true := by
      decide +kernel
    exact ⟨by simpa using plain, by decide +kernel⟩
  have events : ((Source.ofText text).read .plain).events.map Event.definitionText? = [some printed] := by
    decide +kernel
  have plain : (((Source.ofText text).read .plain).events.all fun e =>
      e.definition?.any fun d => d.conjunction.placed.all fun place => place.2.plainTail) = true := by
    decide +kernel
  obtain ⟨e, rest, shape, written, -⟩ := List.map_eq_cons_iff.mp events
  have member : e ∈ ((Source.ofText text).read .plain).events := shape ▸ List.mem_cons_self ..
  obtain ⟨d, defined, plain⟩ := (Option.any_eq_true ..).mp (List.all_eq_true.mp plain e member)
  refine ⟨e, member, written, ?_⟩
  exact read_definition_text (fun t inTokens kind => affix_marker_eq_none_iff.mp (unmarked t inTokens kind))
    single spaced .plain .plain member defined (List.all_eq_true.mp plain) written

end TypeDescription
