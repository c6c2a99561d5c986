import TypeDescription.Proofs.Admission
import TypeDescription.Proofs.Scanning

/-!
Finding tokens again. What is known of the text of a token is enough for the same token to be found
wherever the text is written, as long as what follows keeps apart from it: a name must not run on,
and after a percent sign alone no parenthesis may open.
-/

namespace TypeDescription

open Lexeme

@[simp] theorem white_space : Unicode.isWhiteSpace ' ' = true := by decide

@[simp] theorem white_feed : Unicode.isWhiteSpace '\n' = true := by decide

@[simp] theorem white_return : Unicode.isWhiteSpace '\r' = true := by decide

/-- What may follow a token: the end of the text, or a character that continues no token. -/
def Apart (after : List Char) : Prop := ∀ c ∈ after.head?, c = ' ' ∨ c = '\n' ∨ c = ',' ∨ c = '.'

/-- No parenthesis opens after white space. -/
def NoParenthesis (after : List Char) : Prop :=
  (after.dropWhile Unicode.isWhiteSpace).head? ≠ some '('

theorem head_first_line (s : List Char) : (firstLine s).head? = s.head? := by
  cases s with
  | nil => rfl
  | cons c rest =>
    by_cases feed : c = '\n'
    · subst feed
      rfl
    · rw [(line_cons feed rest).1]
      rfl

theorem Apart.first_line {after : List Char} (apart : Apart after) : Apart (firstLine after) := by
  unfold Apart
  rw [head_first_line]
  exact apart

theorem NoParenthesis.first_line {after : List Char} (noParenthesis : NoParenthesis after) :
    NoParenthesis (firstLine after) := by
  unfold NoParenthesis at noParenthesis ⊢
  obtain ⟨rest, shape⟩ := first_line_prefix after
  rw [← shape, List.dropWhile_append] at noParenthesis
  split at noParenthesis
  · next empty =>
    rw [List.isEmpty_iff] at empty
    rw [empty]
    exact fun same => nomatch same
  · next nonempty =>
    rw [List.isEmpty_iff] at nonempty
    rwa [List.head?_append_of_ne_nil _ nonempty] at noParenthesis

/-! ## Symbols -/

/-- Every symbol is found again, except that two dots and a list that starts with an exclamation
mark would be another token. -/
theorem first_of_symbol {kind : TokenKind} (fixed : kind.isSymbol = true) (after : List Char)
    (dot : kind = .dot → after.head? ≠ some '.')
    (list : kind = .consListOpen → after.head? ≠ some '!') :
    Enclosure.opening? (kind.description.toList ++ after) = none ∧
      first? (kind.description.toList ++ after) = some (kind, kind.description.toList, after) := by
  cases kind <;> cases fixed
  all_goals
    simp [TokenKind.description, Enclosure.opening?, Enclosure.opener, first?, rules, lineComment, between,
      quotedSymbol, literal, List.isPrefixOf?]
  · cases after with
    | nil => rfl
    | cons c rest =>
      have apart : '.' ≠ c := fun same => dot rfl (same ▸ rfl)
      simp [literal, List.isPrefixOf?, apart]
  · cases after with
    | nil => rfl
    | cons c rest =>
      have apart : '!' ≠ c := fun same => list rfl (same ▸ rfl)
      simp [literal, List.isPrefixOf?, apart]

/-! ## Names -/

theorem symbol_append {text after : List Char} (symbolic : IsSymbol text)
    (ends : ∀ c ∈ after.head?, isSymbolChar c = false) :
    symbol (text ++ after) = some (text, after) := by
  have none : after.takeWhile isSymbolChar = [] ∧ after.dropWhile isSymbolChar = after := by
    cases after with
    | nil => exact ⟨rfl, rfl⟩
    | cons c rest =>
      have stop := ends c rfl
      simp [stop]
  have nonempty := symbolic.nonempty
  unfold symbol
  rw [List.takeWhile_append_of_pos symbolic.all, List.dropWhile_append_of_pos symbolic.all, none.1,
    none.2, List.append_nil]
  cases text with
  | nil => exact absurd rfl nonempty
  | cons c rest => rfl

theorem Apart.ends {after : List Char} (apart : Apart after) :
    ∀ c ∈ after.head?, isSymbolChar c = false := by
  intro c member
  rcases apart c member with rfl | rfl | rfl | rfl <;> decide

/-- A symbol does not get a marker by what follows it. -/
theorem not_marked_append {text after : List Char} (symbolic : IsSymbol text)
    (unmarked : ¬ Marked text) (ends : ∀ c ∈ after.head?, isSymbolChar c = false) :
    ¬ Marked (text ++ after) := by
  rintro ⟨side, starts⟩
  have all : ('%' :: side.word.toList).all isSymbolChar = true := by cases side <;> decide
  have found := symbol_append symbolic ends
  have run : (text ++ after).takeWhile isSymbolChar = text := by
    unfold symbol at found
    split at found
    · cases found
    · exact congrArg (fun found => (found.1 : List Char)) (Option.some.inj found)
  obtain ⟨rest, shape⟩ := starts
  rw [← shape, List.takeWhile_append_of_pos (List.all_eq_true.mp all)] at run
  exact unmarked ⟨side, ⟨_, run⟩⟩

theorem letter_set_eq_none {text after : List Char} (symbolic : IsSymbol text)
    (noParenthesis : NoParenthesis after) : letterSet (text ++ after) = none := by
  obtain ⟨c, rest, rfl⟩ := List.exists_cons_of_ne_nil symbolic.nonempty
  by_cases percent : c = '%'
  · subst percent
    have other : ∀ body, (rest ++ after).dropWhile Unicode.isWhiteSpace ≠ '(' :: body := by
      intro body open'
      cases rest with
      | nil =>
        rw [List.nil_append] at open'
        exact noParenthesis (by rw [open']; rfl)
      | cons d rest =>
        have here := symbolic.all d (by simp)
        have dark := dark_of_symbol_char here
        rw [List.cons_append, List.dropWhile_cons_of_neg (by simp [dark])] at open'
        obtain ⟨rfl, -⟩ := List.cons.inj open'
        exact absurd here (by decide)
    rw [List.cons_append, letterSet]
    split
    · next body shape => exact absurd shape (other body)
    · rfl
  · rw [List.cons_append, letterSet]
    exact fun rest' same => percent (List.cons.inj same).1

theorem first_of_name {text after : List Char} (symbolic : IsSymbol text) (unmarked : ¬ Marked text)
    (ends : ∀ c ∈ after.head?, isSymbolChar c = false) (noParenthesis : NoParenthesis after) :
    Enclosure.opening? (text ++ after) = none ∧
      first? (text ++ after) = some (.identifier, text, after) := by
  have noSet := letter_set_eq_none symbolic noParenthesis
  have noMarker := affix_marker_eq_none_iff.mpr (not_marked_append symbolic unmarked ends)
  have name := symbol_append symbolic ends
  obtain ⟨c, rest, rfl⟩ := List.exists_cons_of_ne_nil symbolic.nonempty
  have here := symbolic.all c (List.mem_cons_self ..)
  rw [isSymbolChar, Bool.and_eq_true, Bool.not_eq_true', Bool.not_eq_true'] at here
  have apart : ∀ d ∈ breakChars, d ≠ c ∧ c ≠ d := by
    intro d member
    have outside : c ∉ breakChars := by simpa using here.2
    exact ⟨fun same => outside (same ▸ member), fun same => outside (same ▸ member)⟩
  simp only [breakChars, List.forall_mem_cons] at apart
  simp only [List.cons_append] at noSet noMarker name ⊢
  constructor
  · simp [Enclosure.opening?, Enclosure.opener, List.isPrefixOf?, apart]
  · simp [first?, rules, lineComment, between, quotedSymbol, literal, List.isPrefixOf?, coreference,
      affixPattern, noSet, noMarker, name, apart]

/-! ## Delimited texts -/

theorem first_of_string {text after : List Char} (closed : ClosedBy '"' text) (apart : Apart after) :
    Enclosure.opening? ('"' :: (text ++ '"' :: after)) = none ∧
      first? ('"' :: (text ++ '"' :: after)) = some (.string, text, after) := by
  have third : ∀ more, text ++ '"' :: after ≠ '"' :: '"' :: more := by
    intro more same
    cases text with
    | nil =>
      obtain ⟨-, rfl⟩ := List.cons.inj same
      rcases apart '"' rfl with same | same | same | same <;> cases same
    | cons c text =>
      obtain ⟨rfl, -⟩ := List.cons.inj same
      have found := closed []
      rw [List.cons_append, up_to_cons (by simp), if_pos rfl] at found
      cases found
  have absent : Enclosure.docstring.opener.isPrefixOf? ('"' :: (text ++ '"' :: after)) = none := by
    rw [Option.eq_none_iff_forall_ne_some]
    intro more found
    exact third more (List.cons.inj (List.isPrefixOf?_eq_some_iff_append_eq.mp found)).2.symm
  constructor
  · rw [Enclosure.opening?, absent]
    rfl
  · simp [first?, rules, lineComment, between, closed after]

theorem first_of_regex {text : List Char} (closed : ClosedBy '$' text) (after : List Char) :
    Enclosure.opening? ('^' :: (text ++ '$' :: after)) = none ∧
      first? ('^' :: (text ++ '$' :: after)) = some (.regex, text, after) := by
  constructor
  · simp [Enclosure.opening?, Enclosure.opener, List.isPrefixOf?]
  · simp [first?, rules, lineComment, between, quotedSymbol, closed after]

theorem first_of_coreference {tag after : List Char} (symbolic : IsSymbol tag)
    (noBar : tag.head? ≠ some '|') (ends : ∀ c ∈ after.head?, isSymbolChar c = false) :
    Enclosure.opening? ('#' :: tag ++ after) = none ∧
      first? ('#' :: tag ++ after) = some (.coreference, '#' :: tag, after) := by
  have found := symbol_append symbolic ends
  obtain ⟨c, rest, rfl⟩ := List.exists_cons_of_ne_nil symbolic.nonempty
  have other : '|' ≠ c := fun same => noBar (same ▸ rfl)
  simp only [List.cons_append] at found ⊢
  constructor
  · simp [Enclosure.opening?, Enclosure.opener, List.isPrefixOf?, other]
  · simp [first?, rules, lineComment, between, quotedSymbol, literal, List.isPrefixOf?, coreference,
      found]

/-! ## Operators and affixes -/

theorem first_of_operator (after : List Char) :
    Enclosure.opening? (':' :: '=' :: after) = none ∧
      first? (':' :: '=' :: after) = some (.definitionOperator, [':', '='], after) := by
  constructor
  · simp [Enclosure.opening?, Enclosure.opener, List.isPrefixOf?]
  · simp [first?, rules, lineComment, between, quotedSymbol, literal, List.isPrefixOf?]

theorem first_of_marker (side : AffixSide) (after : List Char) :
    Enclosure.opening? ('%' :: side.word.toList ++ after) = none ∧
      first? ('%' :: side.word.toList ++ after) = some (.affixMarker, side.word.toList, after) := by
  have dark : Unicode.isWhiteSpace 'p' = false ∧ Unicode.isWhiteSpace 's' = false := by decide
  cases side
  all_goals
    constructor
    · simp [Enclosure.opening?, Enclosure.opener, List.isPrefixOf?, AffixSide.word]
    · simp [first?, rules, lineComment, between, quotedSymbol, literal, List.isPrefixOf?, coreference,
        letterSet, affixMarker, AffixSide.word, dark]

/-- Two fields that are kept apart by one space, the only white space of the pattern. -/
structure IsSpaced (first second : List Char) : Prop where
  nonempty : first ≠ []
  dark : ∀ c ∈ first ++ second, Unicode.isWhiteSpace c = false
  field : IsField second

theorem first_of_pattern {first second : List Char} (spaced : IsSpaced first second)
    (after : List Char) :
    Enclosure.opening? ('(' :: (first ++ ' ' :: second ++ ')' :: after)) = none ∧
      first? ('(' :: (first ++ ' ' :: second ++ ')' :: after)) =
        some (.affixPattern, first ++ ' ' :: second, after) := by
  obtain ⟨nonempty, dark, some, field⟩ := spaced
  have noSpace : ∀ c ∈ first, decide (c ≠ ' ') = true := by
    intro c member
    have here := dark c (List.mem_append_left _ member)
    rw [decide_eq_true_eq]
    rintro rfl
    cases here
  have taken : (first ++ ' ' :: (second ++ ')' :: after)).takeWhile (· ≠ ' ') = first := by
    rw [List.takeWhile_append_of_pos noSpace]
    simp
  have gap : (' ' :: (second ++ ')' :: after)).takeWhile Unicode.isWhiteSpace = [' '] := by
    obtain ⟨c, rest, rfl⟩ := List.exists_cons_of_ne_nil some
    have here := dark c (by simp)
    simp [here]
  have last : secondField (second ++ ')' :: after) = .some (second, after) := by
    obtain ⟨c, rest, rfl⟩ := List.exists_cons_of_ne_nil some
    unfold secondField
    rw [field after]
    rfl
  have inner : gapAndField (' ' :: (second ++ ')' :: after)) = .some (' ' :: second, after) := by
    unfold gapAndField
    rw [gap, List.length_singleton, longest, keeping, List.drop_succ_cons, List.drop_zero, last]
    rfl
  have whole : affixPattern ('(' :: (first ++ ' ' :: (second ++ ')' :: after))) =
      .some (first ++ ' ' :: second, after) := by
    obtain ⟨n, length⟩ : ∃ n, first.length = n + 1 :=
      Nat.exists_eq_succ_of_ne_zero (List.length_eq_zero_iff.not.mpr nonempty)
    rw [affixPattern, taken, length, longest, ← length, keeping,
      List.drop_left, inner, Option.map_some, List.take_left]
  constructor
  · simp [Enclosure.opening?, Enclosure.opener, List.isPrefixOf?]
  · simp [first?, rules, lineComment, between, quotedSymbol, literal, List.isPrefixOf?, coreference,
      letterSet, affixMarker, whole]

/-! ## Pieces of a text -/

/-- What every lexeme is written with. -/
structure Inline (written : List Char) : Prop where
  starts : ∃ c rest, written = c :: rest ∧ Unicode.isWhiteSpace c = false
  noFeed : '\n' ∉ written
  ends : written.getLast? ≠ some '\r'

section Pieces

variable {after : List Char} {pieces : Spelling}

private theorem scans_lexeme {kind : TokenKind} {written text : List Char} (inline : Inline written)
    (found : Enclosure.opening? (written ++ firstLine after) = none ∧
      first? (written ++ firstLine after) = some (kind, text, firstLine after))
    (later : Scans after pieces) : Scans (written ++ after) ((kind, String.ofList text) :: pieces) := by
  obtain ⟨⟨c, rest, rfl, dark⟩, noFeed, ends⟩ := inline
  exact .lexeme noFeed ends dark found.1 found.2 later

/-- A text without white space is written on one line. -/
private theorem inline_of_dark {written : List Char} (nonempty : written ≠ [])
    (dark : ∀ c ∈ written, Unicode.isWhiteSpace c = false) : Inline written := by
  refine ⟨?_, fun feed => ?_, fun last => ?_⟩
  · obtain ⟨c, rest, rfl⟩ := List.exists_cons_of_ne_nil nonempty
    exact ⟨c, rest, rfl, dark c (List.mem_cons_self ..)⟩
  · simpa using dark _ feed
  · simpa using dark _ (List.mem_of_getLast? last)

private theorem dark_of_any {written : List Char}
    (none : written.any Unicode.isWhiteSpace = false) :
    ∀ c ∈ written, Unicode.isWhiteSpace c = false := by
  simpa using none

private theorem IsSymbol.dark {text : List Char} (symbolic : IsSymbol text) :
    ∀ c ∈ text, Unicode.isWhiteSpace c = false := by
  intro c member
  exact dark_of_symbol_char (symbolic.all c member)

/-- A delimited text is written on one line if it has no line feed. -/
private theorem inline_delimited (opener closer : Char) {text : List Char} (noFeed : '\n' ∉ text)
    (dark : Unicode.isWhiteSpace opener = false ∧ Unicode.isWhiteSpace closer = false) :
    Inline (opener :: (text ++ [closer])) := by
  refine ⟨⟨opener, _, rfl, dark.1⟩, fun member => ?_, fun last => ?_⟩
  · rw [List.mem_cons, List.mem_append, List.mem_singleton] at member
    rcases member with same | member | same
    · rw [← same, white_feed] at dark
      cases dark.1
    · exact noFeed member
    · rw [← same, white_feed] at dark
      cases dark.2
  · rw [← List.cons_append, List.getLast?_concat] at last
    rw [Option.some.inj last, white_return] at dark
    cases dark.2

theorem Scans.symbol {kind : TokenKind} (fixed : kind.isSymbol = true)
    (dot : kind = .dot → after.head? ≠ some '.')
    (list : kind = .consListOpen → after.head? ≠ some '!') (later : Scans after pieces) :
    Scans (kind.description.toList ++ after) (Spelling.symbol kind ++ pieces) := by
  have inline : Inline kind.description.toList := by
    cases kind <;> cases fixed <;> exact inline_of_dark (by decide) (dark_of_any (by decide))
  have found := first_of_symbol fixed (firstLine after)
    (by rwa [head_first_line]) (by rwa [head_first_line])
  have scans := scans_lexeme inline found later
  rwa [String.ofList_toList] at scans

theorem Scans.name {text : String} (symbolic : IsSymbol text.toList) (unmarked : ¬ Marked text.toList)
    (apart : Apart after) (noParenthesis : NoParenthesis after) (later : Scans after pieces) :
    Scans (text.toList ++ after) ((.identifier, text) :: pieces) := by
  have inline := inline_of_dark symbolic.nonempty (IsSymbol.dark symbolic)
  have found := first_of_name symbolic unmarked apart.first_line.ends noParenthesis.first_line
  have scans := scans_lexeme inline found later
  rwa [String.ofList_toList] at scans

theorem Scans.string {text : String} (closed : ClosedBy '"' text.toList) (noFeed : '\n' ∉ text.toList)
    (apart : Apart after) (later : Scans after pieces) :
    Scans ('"' :: (text.toList ++ ['"']) ++ after) ((.string, text) :: pieces) := by
  have inline := inline_delimited '"' '"' noFeed (by decide)
  have found := first_of_string closed apart.first_line
  have scans := scans_lexeme inline (by simpa using found) later
  rwa [String.ofList_toList] at scans

theorem Scans.regex {text : String} (closed : ClosedBy '$' text.toList) (noFeed : '\n' ∉ text.toList)
    (later : Scans after pieces) :
    Scans ('^' :: (text.toList ++ ['$']) ++ after) ((.regex, text) :: pieces) := by
  have inline := inline_delimited '^' '$' noFeed (by decide)
  have found := first_of_regex closed (firstLine after)
  have scans := scans_lexeme inline (by simpa using found) later
  rwa [String.ofList_toList] at scans

theorem Scans.coreference {tag : String} (symbolic : IsSymbol tag.toList)
    (noBar : tag.toList.head? ≠ some '|') (apart : Apart after) (later : Scans after pieces) :
    Scans ('#' :: tag.toList ++ after) ((.coreference, "#" ++ tag) :: pieces) := by
  have dark : ∀ c ∈ '#' :: tag.toList, Unicode.isWhiteSpace c = false :=
    List.forall_mem_cons.mpr ⟨by decide, IsSymbol.dark symbolic⟩
  have inline := inline_of_dark (List.cons_ne_nil _ _) dark
  have found := first_of_coreference symbolic noBar apart.first_line.ends
  have scans := scans_lexeme inline found later
  have text : String.ofList ('#' :: tag.toList) = "#" ++ tag := by
    apply String.toList_injective
    simp
  rwa [text] at scans

theorem Scans.operator (later : Scans after pieces) :
    Scans (':' :: '=' :: after) ((.definitionOperator, ":=") :: pieces) := by
  have inline : Inline [':', '='] := inline_of_dark (by decide) (dark_of_any (by decide))
  exact scans_lexeme inline (first_of_operator (firstLine after)) later

theorem Scans.marker (side : AffixSide) (later : Scans after pieces) :
    Scans ('%' :: side.word.toList ++ after) ((.affixMarker, side.word) :: pieces) := by
  have inline : Inline ('%' :: side.word.toList) := by
    cases side <;> exact inline_of_dark (by decide) (dark_of_any (by decide))
  have scans := scans_lexeme inline (first_of_marker side (firstLine after)) later
  rwa [String.ofList_toList] at scans

theorem Scans.pattern {first second : List Char} (spaced : IsSpaced first second)
    (later : Scans after pieces) :
    Scans ('(' :: (first ++ ' ' :: second ++ [')']) ++ after)
      ((.affixPattern, String.ofList (first ++ ' ' :: second)) :: pieces) := by
  have noFeed : '\n' ∉ first ++ ' ' :: second := by
    intro member
    rw [List.mem_append, List.mem_cons] at member
    have feed : '\n' ∈ first ++ second := by
      rcases member with member | same | member
      · exact List.mem_append_left _ member
      · cases same
      · exact List.mem_append_right _ member
    simpa using spaced.dark _ feed
  have inline := inline_delimited '(' ')' noFeed (by decide)
  have found := first_of_pattern spaced (firstLine after)
  exact scans_lexeme inline (by simpa using found) later

end Pieces

end TypeDescription
