import TypeDescription.Proofs.Backslashes
import TypeDescription.Proofs.TokenTable

/-!
What stands at a place of a line. White space is passed; at the first other character the first
entry of the table that matches decides which token starts there, what its text is and where it
ends. The four entries whose matches have to be searched for are described by what they find: the
first closing character that is not covered, the last parenthesis of the line, the longest first
field.
-/

namespace TypeDescription

open Lexeme

/-! ## Which rule answers -/

theorem first_semicolon (s : List Char) :
    first? (';' :: s) = some (.lineComment, s.takeWhile (· ≠ '\n'), s.dropWhile (· ≠ '\n')) := by
  simp [first?, rules, lineComment]

theorem first_quote (s : List Char) : first? ('"' :: s) = (upTo '"' s).map (.string, ·) := by
  cases found : upTo '"' s <;>
    simp [first?, rules, lineComment, between, quotedSymbol, literal, List.isPrefixOf?, coreference,
      letterSet, affixMarker, affixPattern, symbol, isSymbolChar, breakChars, found]

theorem first_caret (s : List Char) : first? ('^' :: s) = (upTo '$' s).map (.regex, ·) := by
  cases found : upTo '$' s <;>
    simp [first?, rules, lineComment, between, quotedSymbol, literal, List.isPrefixOf?, coreference,
      letterSet, affixMarker, affixPattern, symbol, isSymbolChar, breakChars, found]

theorem first_parenthesis (s : List Char) :
    first? ('(' :: s) = (affixPattern ('(' :: s)).map (.affixPattern, ·) := by
  cases found : affixPattern ('(' :: s) <;>
    simp [first?, rules, lineComment, between, quotedSymbol, literal, List.isPrefixOf?, coreference,
      letterSet, affixMarker, symbol, isSymbolChar, breakChars, found]

theorem first_percent {s : List Char} {found : Match} (answer : letterSet ('%' :: s) = some found) :
    first? ('%' :: s) = some (.letterSet, found) := by
  simp [first?, rules, lineComment, between, quotedSymbol, literal, List.isPrefixOf?, coreference, answer]

/-- A character that is no white space is none that is. -/
theorem ne_of_white {c d : Char} (white : Unicode.isWhiteSpace c = true)
    (dark : Unicode.isWhiteSpace d = false) : d ≠ c := by
  rintro rfl
  rw [white] at dark
  cases dark

theorem opening_of_white {c : Char} (white : Unicode.isWhiteSpace c = true) (s : List Char) :
    Enclosure.opening? (c :: s) = none := by
  have quote : '"' ≠ c := ne_of_white white (by decide)
  have sign : '#' ≠ c := ne_of_white white (by decide)
  simp [Enclosure.opening?, Enclosure.opener, List.isPrefixOf?, quote, sign]

theorem first_of_white {c : Char} (white : Unicode.isWhiteSpace c = true) (s : List Char) :
    first? (c :: s) = none := by
  have dark : [';', '"', '\'', '^', ':', '.', '&', ',', '[', '<', ']', '!', '>', '#', '%', '(', '/'].all
      (fun d => !Unicode.isWhiteSpace d) = true := by decide
  have apart := fun d member =>
    ne_of_white (d := d) white (by simpa using List.all_eq_true.mp dark d member)
  simp only [List.forall_mem_cons] at apart
  have flipped := fun d (differs : d ≠ c) => Ne.symm differs
  simp [first?, rules, lineComment, between, quotedSymbol, literal, List.isPrefixOf?, coreference,
    letterSet, affixMarker, affixPattern, symbol, isSymbolChar, white, apart, flipped]

theorem table_first_of_white {c : Char} {s : List Char} (inner : '\n' ∉ (c :: s).dropLast)
    (white : Unicode.isWhiteSpace c = true) : TokenRule.tableFirst? (c :: s) = none := by
  rw [TokenRule.table_first_eq inner, opening_of_white white, first_of_white white]
  rfl

/-- An entry of a token that lies on one line counts where no enclosure opens. -/
theorem table_first_eq_some_iff {s : List Char} {kind : TokenKind} {found : Match}
    (inner : '\n' ∉ s.dropLast) (lexical : kind ≠ .docstring ∧ kind ≠ .blockComment) :
    TokenRule.tableFirst? s = some (kind, found) ↔
      Enclosure.opening? s = none ∧ first? s = some (kind, found) := by
  rw [TokenRule.table_first_eq inner]
  cases opened : Enclosure.opening? s with
  | none => simp
  | some answer =>
    obtain ⟨enclosure, body⟩ := answer
    have other : enclosure.kind ≠ kind := by
      cases enclosure
      · exact Ne.symm lexical.1
      · exact Ne.symm lexical.2
    simp [other]

/-! ## Strings and regular expressions -/

theorem up_to_eq_some_iff {closer : Char} {body text after : List Char} (plain : closer ≠ '\\')
    (inner : '\n' ∉ body.dropLast) :
    upTo closer body = some (text, after) ↔ ClosesFirst [closer] body text after := by
  have plain' : '\\' ∉ [closer] := by simpa using Ne.symm plain
  rw [up_to_eq_up_to_closer inner]
  exact up_to_closer_eq_some_iff plain' (List.cons_ne_nil _ _)

/-- Such a token starts with its opening character. -/
theorem exists_of_between {opener closer : Char} {s : List Char} {found : Match}
    (answer : between opener closer s = some found) :
    ∃ body, s = opener :: body ∧ upTo closer body = some found := by
  rw [between.eq_def] at answer
  split at answer
  · next c body =>
    split at answer
    · next same => exact ⟨body, by rw [same], answer⟩
    · cases answer
  · cases answer

theorem table_first_string_iff {s text after : List Char} (inner : '\n' ∉ s.dropLast) :
    TokenRule.tableFirst? s = some (.string, text, after) ↔
      ∃ body, s = '"' :: body ∧ ¬ ['"', '"'] <+: body ∧ ClosesFirst ['"'] body text after := by
  rw [table_first_eq_some_iff inner (by decide)]
  constructor
  · rintro ⟨opened, answer⟩
    obtain ⟨rule, member, ruled⟩ := rule_of_first answer
    obtain rfl := (rule_of_kind _ member).1 rfl
    obtain ⟨body, rfl, found⟩ := exists_of_between ruled
    refine ⟨body, rfl, fun starts => ?_, (up_to_eq_some_iff (by decide) (inner_of_suffix ['"'] inner)).mp found⟩
    obtain ⟨rest, rfl⟩ := starts
    simp [Enclosure.opening?, Enclosure.opener, List.isPrefixOf?] at opened
  · rintro ⟨body, rfl, apart, closes⟩
    have apart' : ['"', '"'].isPrefixOf? body = none := by
      rw [Option.eq_none_iff_forall_ne_some]
      exact fun rest found => apart ⟨rest, List.isPrefixOf?_eq_some_iff_append_eq.mp found⟩
    refine ⟨?_, ?_⟩
    · simp [Enclosure.opening?, Enclosure.opener, List.isPrefixOf?, apart']
    · rw [first_quote, (up_to_eq_some_iff (by decide) (inner_of_suffix ['"'] inner)).mpr closes]
      rfl

theorem table_first_regex_iff {s text after : List Char} (inner : '\n' ∉ s.dropLast) :
    TokenRule.tableFirst? s = some (.regex, text, after) ↔
      ∃ body, s = '^' :: body ∧ ClosesFirst ['$'] body text after := by
  rw [table_first_eq_some_iff inner (by decide)]
  constructor
  · rintro ⟨-, answer⟩
    obtain ⟨rule, member, ruled⟩ := rule_of_first answer
    obtain rfl := (rule_of_kind _ member).2.2.1 rfl
    obtain ⟨body, rfl, found⟩ := exists_of_between ruled
    exact ⟨body, rfl, (up_to_eq_some_iff (by decide) (inner_of_suffix ['^'] inner)).mp found⟩
  · rintro ⟨body, rfl, closes⟩
    refine ⟨?_, ?_⟩
    · simp [Enclosure.opening?, Enclosure.opener, List.isPrefixOf?]
    · rw [first_caret, (up_to_eq_some_iff (by decide) (inner_of_suffix ['^'] inner)).mpr closes]
      rfl

/-! ## Letter sets -/

theorem letter_set_eq_some_iff {s text after : List Char} :
    letterSet s = some (text, after) ↔ after = [] ∧ ∃ gap trail,
      (∀ c ∈ gap ++ trail, Unicode.isWhiteSpace c = true) ∧
        s = '%' :: gap ++ '(' :: text ++ ')' :: trail := by
  refine ⟨letter_set_eq_some, ?_⟩
  rintro ⟨rfl, gap, trail, space, rfl⟩
  obtain ⟨space, space'⟩ := List.forall_mem_append.mp space
  have opens : (gap ++ '(' :: (text ++ ')' :: trail)).dropWhile Unicode.isWhiteSpace =
      '(' :: (text ++ ')' :: trail) := by
    rw [List.dropWhile_append_of_pos space]
    rfl
  simp only [letterSet, List.cons_append, List.append_assoc, opens]
  exact TokenRule.last_parenthesis.mpr ⟨rfl, trail, space', rfl⟩

theorem table_first_letter_set_iff {s text after : List Char} (inner : '\n' ∉ s.dropLast) :
    TokenRule.tableFirst? s = some (.letterSet, text, after) ↔ after = [] ∧ ∃ gap trail,
      (∀ c ∈ gap ++ trail, Unicode.isWhiteSpace c = true) ∧
        s = '%' :: gap ++ '(' :: text ++ ')' :: trail := by
  rw [table_first_eq_some_iff inner (by decide)]
  constructor
  · rintro ⟨-, answer⟩
    obtain ⟨rule, member, ruled⟩ := rule_of_first answer
    have only : ∀ entry ∈ rules, entry.1 = .letterSet → entry.2 = letterSet := by simp [rules]
    obtain rfl := only _ member rfl
    exact letter_set_eq_some_iff.mp ruled
  · intro shape
    have ruled := letter_set_eq_some_iff.mpr shape
    obtain ⟨-, gap, trail, -, rfl⟩ := shape
    refine ⟨?_, first_percent ruled⟩
    simp [Enclosure.opening?, Enclosure.opener, List.isPrefixOf?]

/-! ## Affix patterns -/

/-- An answer for a count is taken if there is none for a greater one. -/
theorem longest_eq_some_iff {answer : Nat → Option α} {n : Nat} {found : α} :
    longest answer n = some found ↔
      ∃ k, 0 < k ∧ k ≤ n ∧ answer k = some found ∧ ∀ m, k < m → m ≤ n → answer m = none := by
  induction n with
  | zero =>
    simp only [longest]
    constructor
    · intro nothing
      cases nothing
    · rintro ⟨k, positive, bound, -⟩
      omega
  | succ n ih =>
    rw [longest]
    cases here : answer (n + 1) with
    | some found' =>
      constructor
      · rintro ⟨⟩
        exact ⟨n + 1, Nat.succ_pos n, Nat.le_refl _, here, fun m greater bound => by omega⟩
      · rintro ⟨k, positive, bound, answered, none⟩
        rcases Nat.eq_or_lt_of_le bound with rfl | before
        · exact here.symm.trans answered
        · rw [none (n + 1) before (Nat.le_refl _)] at here
          cases here
    | none =>
      refine ih.trans ⟨?_, ?_⟩
      · rintro ⟨k, positive, bound, answered, none⟩
        refine ⟨k, positive, Nat.le_succ_of_le bound, answered, fun m greater bound' => ?_⟩
        rcases Nat.eq_or_lt_of_le bound' with rfl | before
        · exact here
        · exact none m greater (Nat.le_of_lt_succ before)
      · rintro ⟨k, positive, bound, answered, none⟩
        rcases Nat.eq_or_lt_of_le bound with rfl | before
        · rw [here] at answered
          cases answered
        · exact ⟨k, positive, Nat.le_of_lt_succ before, answered,
            fun m greater bound' => none m greater (Nat.le_succ_of_le bound')⟩

theorem longest_eq_none_iff {answer : Nat → Option α} {n : Nat} :
    longest answer n = none ↔ ∀ k, 0 < k → k ≤ n → answer k = none := by
  induction n with
  | zero =>
    simp only [longest, true_iff]
    exact fun k positive bound => absurd positive (Nat.not_lt_of_le bound)
  | succ n ih =>
    rw [longest]
    cases here : answer (n + 1) with
    | some found =>
      constructor
      · intro absent
        cases absent
      · intro absent
        rw [absent (n + 1) (Nat.succ_pos n) (Nat.le_refl _)] at here
        cases here
    | none =>
      refine ih.trans ⟨fun absent k positive bound => ?_, fun absent k positive bound =>
        absent k positive (Nat.le_succ_of_le bound)⟩
      rcases Nat.eq_or_lt_of_le bound with rfl | before
      · exact here
      · exact absent k positive (Nat.le_of_lt_succ before)

/-- The first `n` characters, and there are that many, hold no space. -/
def SpaceFree (body : List Char) (n : Nat) : Prop := n ≤ body.length ∧ ' ' ∉ body.take n

theorem le_length_take_while_iff {p : Char → Bool} {s : List Char} {n : Nat} :
    n ≤ (s.takeWhile p).length ↔ n ≤ s.length ∧ ∀ c ∈ s.take n, p c = true := by
  induction s generalizing n with
  | nil => simp
  | cons c s ih =>
    cases n with
    | zero => simp
    | succ n =>
      by_cases admitted : p c = true
      · simp [admitted, ih]
      · simp [admitted]

theorem space_free_iff {body : List Char} {n : Nat} :
    SpaceFree body n ↔ n ≤ (body.takeWhile (· ≠ ' ')).length := by
  rw [le_length_take_while_iff, SpaceFree, List.forall_mem_ne'.symm]
  simp

/-- What the scanner tries for a first field of `n` characters. -/
theorem keeping_gap_eq_some_iff {body text after : List Char} {n : Nat} :
    keeping gapAndField body n = some (text, after) ↔ ∃ second,
      TokenRule.afterFirstField.first? (body.drop n) = some (second, after) ∧
        text = body.take n ++ second := by
  rw [TokenRule.first_after_first_field]
  constructor
  · exact keeping_eq_some
  · rintro ⟨second, found, rfl⟩
    rw [keeping, found]
    rfl

theorem keeping_gap_eq_none_iff {body : List Char} {n : Nat} :
    keeping gapAndField body n = none ↔ TokenRule.afterFirstField.first? (body.drop n) = none := by
  rw [TokenRule.first_after_first_field, keeping, Option.map_eq_none_iff]

theorem affix_pattern_eq_some_iff {body text after : List Char} :
    affixPattern ('(' :: body) = some (text, after) ↔ ∃ n second, 0 < n ∧ SpaceFree body n ∧
      TokenRule.afterFirstField.first? (body.drop n) = some (second, after) ∧
        text = body.take n ++ second ∧
          ∀ m, n < m → SpaceFree body m → TokenRule.afterFirstField.first? (body.drop m) = none := by
  rw [affixPattern, longest_eq_some_iff]
  constructor
  · rintro ⟨n, positive, bound, kept, none⟩
    obtain ⟨second, found, shape⟩ := keeping_gap_eq_some_iff.mp kept
    refine ⟨n, second, positive, space_free_iff.mpr bound, found, shape, fun m greater free => ?_⟩
    exact keeping_gap_eq_none_iff.mp (none m greater (space_free_iff.mp free))
  · rintro ⟨n, second, positive, free, found, shape, none⟩
    refine ⟨n, positive, space_free_iff.mp free, keeping_gap_eq_some_iff.mpr ⟨second, found, shape⟩,
      fun m greater bound => ?_⟩
    exact keeping_gap_eq_none_iff.mpr (none m greater (space_free_iff.mpr bound))

theorem table_first_affix_pattern_iff {s text after : List Char} (inner : '\n' ∉ s.dropLast) :
    TokenRule.tableFirst? s = some (.affixPattern, text, after) ↔ ∃ body n second, s = '(' :: body ∧
      0 < n ∧ SpaceFree body n ∧
        TokenRule.afterFirstField.first? (body.drop n) = some (second, after) ∧
          text = body.take n ++ second ∧
            ∀ m, n < m → SpaceFree body m → TokenRule.afterFirstField.first? (body.drop m) = none := by
  rw [table_first_eq_some_iff inner (by decide)]
  constructor
  · rintro ⟨-, answer⟩
    obtain ⟨rule, member, ruled⟩ := rule_of_first answer
    obtain rfl := (rule_of_kind _ member).2.2.2.2.1 rfl
    obtain ⟨-, shape⟩ := affix_pattern_eq_some ruled
    obtain ⟨body, rfl⟩ : ∃ body, s = '(' :: body := ⟨text ++ ')' :: after, shape⟩
    obtain ⟨n, second, longest⟩ := affix_pattern_eq_some_iff.mp ruled
    exact ⟨body, n, second, rfl, longest⟩
  · rintro ⟨body, n, second, rfl, longest⟩
    refine ⟨?_, ?_⟩
    · simp [Enclosure.opening?, Enclosure.opener, List.isPrefixOf?]
    · rw [first_parenthesis, affix_pattern_eq_some_iff.mpr ⟨n, second, longest⟩]
      rfl

/-! ## Lines -/

/-- How a line is read on at a place where the table finds this: not at all at the end of the line,
with a fault where nothing matches, up to the closing delimiter where an enclosure opens, and
otherwise with the token that is found. -/
def readOn (number : Nat) (line place : List Char) : Option (TokenKind × Match) → LineScan
  | none =>
    match place with
    | [] => { tokens := [], ending := .ok none }
    | _ :: _ => { tokens := [], ending := .error (unexpectedAt number line place) }
  | some (.docstring, _, after) =>
    closing number line { enclosure := .docstring, line := number, text := [] } after
  | some (.blockComment, _, after) =>
    closing number line { enclosure := .comment, line := number, text := [] } after
  | some (kind, text, after) =>
    (walk number line after 0).after
      { kind, text := String.ofList text, line := number, lastLine := number }

theorem walk_drop_white (number : Nat) (line s : List Char) :
    walk number line s 0 = walk number line (s.dropWhile Unicode.isWhiteSpace) 0 := by
  induction s with
  | nil => rfl
  | cons c s ih =>
    by_cases white : Unicode.isWhiteSpace c = true
    · rw [walk_white white, ih, List.dropWhile_cons_of_pos white]
    · rw [List.dropWhile_cons_of_neg white]

theorem read_on_lexeme {number : Nat} {line place text after : List Char} {kind : TokenKind}
    (lexical : kind ≠ .docstring ∧ kind ≠ .blockComment) :
    readOn number line place (some (kind, text, after)) = (walk number line after 0).after
      { kind, text := String.ofList text, line := number, lastLine := number } := by
  cases kind with
  | docstring => exact absurd rfl lexical.1
  | blockComment => exact absurd rfl lexical.2
  | _ => rfl

theorem walk_dark {number : Nat} {line s : List Char} {c : Char} (inner : '\n' ∉ (c :: s).dropLast)
    (dark : Unicode.isWhiteSpace c = false) :
    walk number line (c :: s) 0 =
      readOn number line (c :: s) (TokenRule.tableFirst? (c :: s)) := by
  rw [TokenRule.table_first_eq inner]
  cases opened : Enclosure.opening? (c :: s) with
  | some answer =>
    obtain ⟨enclosure, body⟩ := answer
    rw [opening_eq_some opened, walk_opener]
    cases enclosure <;> rfl
  | none =>
    cases found : first? (c :: s) with
    | none =>
      rw [walk_stuck dark opened found]
      rfl
    | some answer =>
      obtain ⟨kind, text, after⟩ := answer
      have lexical : kind ≠ .docstring ∧ kind ≠ .blockComment := by
        obtain ⟨rule, member, -⟩ := rule_of_first found
        have all : ∀ entry ∈ rules, entry.1 ≠ .docstring ∧ entry.1 ≠ .blockComment := by simp [rules]
        exact all _ member
      rw [walk_lexeme dark opened found]
      exact (read_on_lexeme lexical).symm

/-- The scanner agrees with the table. From every position of a line on, the line is read with what
the first matching entry finds at the first character that is no white space, and no entry matches
before that character. A string ends at the first quotation mark that no backslash covers, and a
regular expression at the first such dollar sign. A letter set needs nothing but white space after
the last closing parenthesis of the line, and takes the line to its end. An affix pattern has the
longest first field without a space after which the rest of the entry matches. -/
theorem scanner_follows_table (number : Nat) {line : List Char} (isLine : '\n' ∉ line.dropLast)
    (position : Nat) :
    let place := (line.drop position).dropWhile Unicode.isWhiteSpace
    let found := TokenRule.tableFirst? place
    walk number line (line.drop position) 0 = readOn number line place found ∧
      (∀ c s, c :: s <:+ line → Unicode.isWhiteSpace c = true →
        TokenRule.tableFirst? (c :: s) = none) ∧
      (∀ text after, found = some (.string, text, after) ↔
        ∃ body, place = '"' :: body ∧ ¬ ['"', '"'] <+: body ∧ ClosesFirst ['"'] body text after) ∧
      (∀ text after, found = some (.regex, text, after) ↔
        ∃ body, place = '^' :: body ∧ ClosesFirst ['$'] body text after) ∧
      (∀ text after, found = some (.letterSet, text, after) ↔ after = [] ∧ ∃ gap trail,
        (∀ c ∈ gap ++ trail, Unicode.isWhiteSpace c = true) ∧
          place = '%' :: gap ++ '(' :: text ++ ')' :: trail) ∧
      (∀ text after, found = some (.affixPattern, text, after) ↔ ∃ body n second,
        place = '(' :: body ∧ 0 < n ∧ SpaceFree body n ∧
          TokenRule.afterFirstField.first? (body.drop n) = some (second, after) ∧
            text = body.take n ++ second ∧
              ∀ m, n < m → SpaceFree body m →
                TokenRule.afterFirstField.first? (body.drop m) = none) := by
  intro place found
  have inside {s : List Char} (tail : s <:+ line) : '\n' ∉ s.dropLast := by
    obtain ⟨before, rfl⟩ := tail
    exact inner_of_suffix _ isLine
  have inner : '\n' ∉ place.dropLast :=
    inside ((List.dropWhile_suffix _).trans (List.drop_suffix position line))
  refine ⟨?_, fun c s tail => table_first_of_white (inside tail), fun text after =>
    table_first_string_iff inner, fun text after => table_first_regex_iff inner, fun text after =>
    table_first_letter_set_iff inner, fun text after => table_first_affix_pattern_iff inner⟩
  rw [walk_drop_white]
  have start := List.head?_dropWhile_not Unicode.isWhiteSpace (line.drop position)
  change walk number line place 0 = readOn number line place (TokenRule.tableFirst? place)
  rw [show (line.drop position).dropWhile Unicode.isWhiteSpace = place from rfl] at start
  cases shape : place with
  | nil => rfl
  | cons c s =>
    rw [shape] at start inner
    exact walk_dark inner (by simpa using start)

/-- The longest first field without a space leaves no second field; only the tab does. -/
theorem scanner_follows_table_back_to_a_tab :
    '\n' ∉ "x (a\tb)c d".toList.dropLast ∧
      walk 1 "x (a\tb)c d".toList " (a\tb)c d".toList 0 =
        readOn 1 "x (a\tb)c d".toList "(a\tb)c d".toList
          (some (.affixPattern, "a\tb".toList, "c d".toList)) := by
  have noFeed : '\n' ∉ "x (a\tb)c d".toList.dropLast := by decide
  have here : TokenRule.tableFirst? "(a\tb)c d".toList =
      some (.affixPattern, "a\tb".toList, "c d".toList) := by decide +kernel
  have reads := (scanner_follows_table 1 noFeed 1).1
  exact ⟨noFeed, here ▸ reads⟩

end TypeDescription
