import TypeDescription.Proofs.LineEnds
import TypeDescription.Proofs.Relexing
import TypeDescription.Proofs.Spans
import TypeDescription.Proofs.TextLines

/-!
Tokens that are written alone. A token is found at its place in a line, where other text follows it;
its written form has nothing behind it. No rule that stands before its own in the table captures the
written form, and its own rule stops at the same character: the text of a token decides where it
ends. For an affix pattern, which is searched for by trying shorter and shorter fields, this holds
because there is less to try.
-/

namespace TypeDescription

open Lexeme

/-- The token is found at once where it is written like this, and nothing is left behind it. -/
structure Alone (kind : TokenKind) (text written : List Char) : Prop where
  plain : '\n' ∉ written
  opened : Enclosure.opening? written = none
  found : first? written = some (kind, text, [])

/-- A text that is one token. -/
theorem Alone.scan {kind : TokenKind} {text written : List Char} (alone : Alone kind text written) :
    (Source.ofText (String.ofList written)).scan =
      { tokens := [{ kind, text := String.ofList text, line := 1, lastLine := 1 }]
        error := none
        linesRead := 1 } := by
  obtain ⟨plain, opened, found⟩ := alone
  cases written with
  | nil => cases found
  | cons c rest =>
    have dark : Unicode.isWhiteSpace c = false := by
      rw [Bool.eq_false_iff]
      intro white
      rw [first_of_white white] at found
      cases found
    have lines : Source.textLines (c :: rest) = [c :: rest] := by
      have cut := text_lines_cons [] plain (.inr (.inr ⟨rfl, rfl, List.cons_ne_nil _ _⟩))
      rw [List.append_nil, List.append_nil, drop_return_of_unreturned (unreturned_of_plain plain)] at cut
      exact cut
    rw [Source.scan, Source.ofText, String.toList_ofList, lines, scanLines, scanLine,
      walk_lexeme dark opened found, walk]
    rfl

/-! ## Rules one by one -/

/-- What the rule of an entry finds on a line can be written alone. -/
private def FoundAlone (kind : TokenKind) (rule : List Char → Option Match) : Prop :=
  ∀ s text after, '\n' ∉ s.dropLast → Enclosure.opening? s = none →
    first? s = some (kind, text, after) → rule s = some (text, after) →
      Alone kind text (Token.spelling kind (String.ofList text)).toList

/-- Where a text ends no character follows it. -/
private theorem nothing_follows {P : Char → Prop} : ∀ c ∈ ([] : List Char).head?, P c :=
  fun _ member => nomatch member

private theorem literal_alone {kind : TokenKind} {spelled : List Char} (plain : '\n' ∉ spelled)
    (bare : Token.spelling kind (String.ofList spelled) = String.ofList spelled)
    (alone : Enclosure.opening? spelled = none ∧ first? spelled = some (kind, spelled, [])) :
    FoundAlone kind (literal spelled) := by
  intro s text after inner opened answer ruled
  obtain ⟨rfl, -⟩ := literal_eq_some_iff.mp ruled
  rw [bare, String.toList_ofList]
  exact ⟨plain, alone.1, alone.2⟩

private theorem line_comment_alone : FoundAlone .lineComment lineComment := by
  intro s text after inner opened answer ruled
  have plain : ∀ c ∈ text, decide (c ≠ '\n') = true := by
    rw [lineComment.eq_def] at ruled
    split at ruled
    · cases ruled
      exact List.all_eq_true.mp List.all_takeWhile
    · cases ruled
  have written : (Token.spelling .lineComment (String.ofList text)).toList = ';' :: text := by
    simp [Token.spelling]
  rw [written]
  refine ⟨fun feed => ?_, rfl, ?_⟩
  · have inside : '\n' ∈ text := by simpa using feed
    simpa using plain _ inside
  · have whole : text.takeWhile (fun c => decide (c ≠ '\n')) = text := List.takeWhile_eq_self_iff.mpr plain
    have nothing : text.dropWhile (fun c => decide (c ≠ '\n')) = [] := List.dropWhile_eq_nil_iff.mpr plain
    rw [first_semicolon, whole, nothing]

private theorem string_alone : FoundAlone .string (between '"' '"') := by
  intro s text after inner opened answer ruled
  obtain ⟨closed, rfl⟩ := between_eq_some (by decide) ruled
  have plain := plain_of_suffix inner ['"'] List.suffix_rfl
  have written : (Token.spelling .string (String.ofList text)).toList = '"' :: (text ++ ['"']) := by
    simp [Token.spelling]
  have alone := first_of_string closed nothing_follows
  rw [written]
  exact ⟨by simp [plain], alone.1, alone.2⟩

private theorem regex_alone : FoundAlone .regex (between '^' '$') := by
  intro s text after inner opened answer ruled
  obtain ⟨closed, rfl⟩ := between_eq_some (by decide) ruled
  have plain := plain_of_suffix inner ['^'] List.suffix_rfl
  have written : (Token.spelling .regex (String.ofList text)).toList = '^' :: (text ++ ['$']) := by
    simp [Token.spelling]
  have alone := first_of_regex closed []
  rw [written]
  exact ⟨by simp [plain], alone.1, alone.2⟩

/-- A symbol is all that is found where nothing follows it. -/
private theorem symbol_of_symbolic {text : List Char} (symbolic : IsSymbol text) :
    symbol text = some (text, []) := by
  have found := symbol_append symbolic nothing_follows
  rwa [List.append_nil] at found

private theorem plain_of_symbolic {text : List Char} (symbolic : IsSymbol text) : '\n' ∉ text := by
  intro feed
  have dark := dark_of_symbol_char (symbolic.all _ feed)
  rw [white_feed] at dark
  cases dark

private theorem quoted_symbol_alone : FoundAlone .quotedSymbol quotedSymbol := by
  intro s text after inner opened answer ruled
  have symbolic := (quoted_symbol_eq_some ruled).1
  have plain := plain_of_symbolic symbolic
  have written : (Token.spelling .quotedSymbol (String.ofList text)).toList = '\'' :: text := by
    simp [Token.spelling]
  rw [written]
  refine ⟨by simp [plain], rfl, ?_⟩
  simp [first?, rules, lineComment, between, quotedSymbol, symbol_of_symbolic symbolic]

private theorem coreference_alone : FoundAlone .coreference coreference := by
  intro s text after inner opened answer ruled
  obtain ⟨tag, rfl, symbolic, noBar⟩ := admits_of_first opened answer
  have plain := plain_of_symbolic symbolic
  have alone := first_of_coreference symbolic noBar nothing_follows
  rw [List.append_nil] at alone
  have written : (Token.spelling .coreference (String.ofList ('#' :: tag))).toList = '#' :: tag :=
    String.toList_ofList
  rw [written]
  exact ⟨by simp [plain], alone.1, alone.2⟩

/-- White space around the parentheses of a letter set is left out where it is written. -/
private theorem letter_set_alone : FoundAlone .letterSet letterSet := by
  intro s text after inner opened answer ruled
  obtain ⟨-, gap, trail, -, rfl⟩ := letter_set_eq_some ruled
  have tail : '%' :: gap ++ ['('] ++ text ++ ')' :: trail <:+ '%' :: gap ++ '(' :: text ++ ')' :: trail := by
    simp
  have plain := plain_of_suffix inner _ tail
  have written : (Token.spelling .letterSet (String.ofList text)).toList = '%' :: '(' :: (text ++ [')']) := by
    simp [Token.spelling]
  have alone : letterSet ('%' :: '(' :: (text ++ [')'])) = some (text, []) :=
    letter_set_eq_some_iff.mpr ⟨rfl, [], [], by simp, rfl⟩
  rw [written]
  exact ⟨by simp [plain], rfl, first_percent alone⟩

theorem affix_marker_side {s text after : List Char} (answer : affixMarker s = some (text, after)) :
    ∃ side : AffixSide, text = side.word.toList := by
  rw [affixMarker.eq_def] at answer
  split at answer
  · next rest =>
    split at answer
    · next found front =>
      cases answer
      exact ⟨.front, (literal_eq_some_iff.mp front).1⟩
    · exact ⟨.back, (literal_eq_some_iff.mp answer).1⟩
  · cases answer

private theorem affix_marker_alone : FoundAlone .affixMarker affixMarker := by
  intro s text after inner opened answer ruled
  obtain ⟨side, rfl⟩ := affix_marker_side ruled
  have alone := first_of_marker side []
  rw [List.append_nil] at alone
  have plain : '\n' ∉ '%' :: side.word.toList := by cases side <;> decide
  have written : (Token.spelling .affixMarker (String.ofList side.word.toList)).toList =
      '%' :: side.word.toList := by
    simp [Token.spelling]
  rw [written]
  exact ⟨plain, alone.1, alone.2⟩

/-- An affix pattern is found again where its parenthesis is the last character: what could be found
there instead could have been found before, as well. -/
theorem affix_pattern_alone {body text after : List Char}
    (found : affixPattern ('(' :: body) = some (text, after)) :
    affixPattern ('(' :: (text ++ [')'])) = some (text, []) := by
  obtain ⟨-, shape⟩ := affix_pattern_eq_some found
  have whole : body = text ++ [')'] ++ after := by simpa using shape
  subst whole
  obtain ⟨k, j, field, candidate, taken, greatest⟩ := affix_pattern_greatest.mp found
  have length : k + j + field.length = text.length := by
    have bound := candidate.white.1
    rw [taken, List.length_append, List.length_take]
    omega
  have within : k + j + field.length < (text ++ [')']).length := by
    rw [List.length_append, List.length_singleton]
    omega
  obtain ⟨rest, same, moved⟩ := candidate.move within
  obtain rfl : rest = [] := by simpa using same
  apply affix_pattern_greatest.mpr
  refine ⟨k, j, field, by simpa using moved [], ?_, fun k' j' field' after' other => ?_⟩
  · have front : (text ++ [')'] ++ after).take (k + j) = (text ++ [')']).take (k + j) :=
      List.take_append_of_le_length (by omega)
    rwa [front] at taken
  · have other' : Candidate (text ++ [')'] ++ []) k' j' field' after' := by rwa [List.append_nil]
    obtain ⟨_, -, moved'⟩ := other'.move (other'.within_of_no_parenthesis List.not_mem_nil)
    exact greatest _ _ _ _ (moved' after)

private theorem pattern_alone : FoundAlone .affixPattern affixPattern := by
  intro s text after inner opened answer ruled
  obtain ⟨-, rfl⟩ := affix_pattern_eq_some ruled
  have plain := plain_of_suffix inner ['('] List.suffix_rfl
  have written : (Token.spelling .affixPattern (String.ofList text)).toList = '(' :: (text ++ [')']) := by
    simp [Token.spelling]
  rw [written]
  refine ⟨by simp [plain], rfl, ?_⟩
  rw [first_parenthesis, affix_pattern_alone ruled]
  rfl

private theorem identifier_alone : FoundAlone .identifier symbol := by
  intro s text after inner opened answer ruled
  obtain ⟨symbolic, unmarked⟩ := admits_of_first opened answer
  have closed : NoParenthesis [] := by simp [NoParenthesis]
  have alone := first_of_name symbolic unmarked nothing_follows closed
  rw [List.append_nil] at alone
  have written : (Token.spelling .identifier (String.ofList text)).toList = text := String.toList_ofList
  rw [written]
  exact ⟨plain_of_symbolic symbolic, alone.1, alone.2⟩

private theorem rules_alone : ∀ entry ∈ rules, FoundAlone entry.1 entry.2 := by
  simp only [rules, List.forall_mem_cons]
  refine ⟨line_comment_alone, string_alone, quoted_symbol_alone, regex_alone, ?_, ?_, ?_, ?_, ?_, ?_, ?_, ?_,
    ?_, ?_, ?_, ?_, ?_, coreference_alone, letter_set_alone, affix_marker_alone, pattern_alone, ?_,
    identifier_alone, List.forall_mem_nil _⟩
  all_goals exact literal_alone (by decide) rfl ⟨rfl, rfl⟩

/-- A token that is found on a line is found again where it is written alone. -/
theorem alone_of_first {s text after : List Char} {kind : TokenKind} (inner : '\n' ∉ s.dropLast)
    (opened : Enclosure.opening? s = none) (answer : first? s = some (kind, text, after)) :
    Alone kind text (Token.spelling kind (String.ofList text)).toList := by
  obtain ⟨rule, member, ruled⟩ := rule_of_first answer
  exact rules_alone _ member s text after inner opened answer ruled

/-! ## Tokens of a source -/

theorem scan_tokens_alone {source : Source} (areLines : AreLines source.lines) :
    ∀ t ∈ source.scan.tokens, (∀ enclosure : Enclosure, t.kind ≠ enclosure.kind) →
      Alone t.kind t.text.toList t.written.toList := by
  refine scan_lines_forall (I := fun _ => True) ?_ (fun _ _ _ _ _ _ _ => trivial) trivial
  intro number line member unclosed _
  apply scan_line_tokens_forall
  · exact fun u text known inside encloses lexical => absurd rfl (lexical u.enclosure)
  · intro s kind text after tail opened answer _
    obtain ⟨before, shape⟩ := tail
    have inner : '\n' ∉ (before ++ s).dropLast := shape ▸ areLines.inner line member
    rw [String.toList_ofList]
    exact alone_of_first (inner_of_suffix before inner) opened answer

/-- A docstring or a comment is scanned into itself, however many lines it has. -/
theorem Token.IsEnclosed.scan {t : Token} (isEnclosed : t.IsEnclosed) {enclosure : Enclosure}
    (kind : t.kind = enclosure.kind) (unreturned : Unreturned t.text.toList) :
    (Source.ofText t.written).scan.ReadsAs [t.bare] := by
  have scans := Scans.enclosed (isEnclosed enclosure kind) unreturned .done
  have written : t.written.toList = enclosure.opener ++ (t.text.toList ++ enclosure.closer ++ []) := by
    rw [Token.written, kind]
    cases enclosure <;> simp [Token.spelling, Enclosure.kind, Enclosure.opener, Enclosure.closer]
  rw [String.ofList_toList, ← kind, ← written] at scans
  exact scans.read

/-- The written form of a token scans back to it. Whatever source a token is found in, a scan of its
written form alone finds one token, of the same kind and with the same text, and no fault; unless
its text has a carriage return before a line feed, which the scan would drop. -/
theorem written_token_scans_back (bytes : List UInt8) (failure : Option String) :
    ∀ t ∈ (Source.ofBytes bytes failure).scan.tokens, ¬ ['\r', '\n'] <:+: t.text.toList →
      let again := (Source.ofText t.written).scan
      again.error = none ∧ ∃ t', again.tokens = [t'] ∧ t'.kind = t.kind ∧ t'.text = t.text := by
  intro t member single again
  have areLines := of_bytes_are_lines bytes failure
  by_cases enclosed : ∃ enclosure : Enclosure, t.kind = enclosure.kind
  · obtain ⟨enclosure, kind⟩ := enclosed
    have isEnclosed := scan_tokens_enclosed areLines.ends t member
    obtain ⟨error, tokens⟩ := isEnclosed.scan kind (unreturned_of_no_return_feed single)
    obtain ⟨t', only, same⟩ := List.map_eq_singleton_iff.mp tokens
    obtain ⟨kind', text'⟩ := Prod.mk.inj same
    exact ⟨error, t', only, kind', text'⟩
  · have alone := scan_tokens_alone areLines t member (not_exists.mp enclosed)
    have scan := alone.scan
    rw [String.ofList_toList, String.ofList_toList] at scan
    simp only [again, scan]
    exact ⟨trivial, _, rfl, rfl, rfl⟩

/-- Reading fails after a docstring of two lines, the first of which ends with a backslash, and an affix
pattern with a parenthesis before the one that closes it. -/
theorem written_docstring_and_pattern_scan_back :
    let text := "\"\"\"a \\\r\n\\\"\"\"\" (a)\t\t(b\\)) c\n"
    let doc : Token := { kind := .docstring, text := "a \\\n\\\"", line := 1, lastLine := 2 }
    let pattern : Token := { kind := .affixPattern, text := "a)\t\t(b\\)", line := 2, lastLine := 2 }
    let scan := (Source.ofBytes text.toUTF8.data.toList (some "gone")).scan
    ∀ t ∈ [doc, pattern], (t ∈ scan.tokens ∧ ¬ ['\r', '\n'] <:+: t.text.toList) ∧
      (Source.ofText t.written).scan.error = none ∧
        ∃ t', (Source.ofText t.written).scan.tokens = [t'] ∧ t'.kind = t.kind ∧ t'.text = t.text := by
  intro text doc pattern scan t listed
  have known : ∀ t ∈ [doc, pattern], t ∈ scan.tokens ∧ ¬ ['\r', '\n'] <:+: t.text.toList := by
    simp only [scan, of_bytes_of_text]
    decide +kernel
  obtain ⟨member, single⟩ := known t listed
  exact ⟨⟨member, single⟩, written_token_scans_back _ _ t member single⟩

end TypeDescription
