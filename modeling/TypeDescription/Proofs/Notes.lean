import TypeDescription.Proofs.Comments
import TypeDescription.Proofs.LineEnds
import TypeDescription.Proofs.Relexing

/-!
Comments that are added at the ends of lines.
-/

namespace TypeDescription

open Lexeme

/-- What is added at the end of a line: a space and a line comment. -/
def note (comment : List Char) : List Char := ' ' :: ';' :: comment

section Note

variable {comment ending : List Char}

theorem note_stops : Stops (note comment ++ ending) := by
  intro c first
  exact .inl (Option.some.inj first).symm

theorem end_stops (ends : ending = [] ∨ ending = ['\n']) : Stops ending := by
  rcases ends with rfl | rfl
  · exact fun c first => nomatch first
  · exact fun c first => .inr (Option.some.inj first).symm

theorem letter_set_of_no_parenthesis {s : List Char} (noParenthesis : NoParenthesis s) :
    letterSet ('%' :: s) = none := by
  rw [letterSet]
  split
  · next body opens => exact absurd (by rw [opens]; rfl) noParenthesis
  · rfl

theorem no_parenthesis_append {s t : List Char} (first : NoParenthesis s) (second : NoParenthesis t) :
    NoParenthesis (s ++ t) := by
  unfold NoParenthesis
  rw [List.dropWhile_append]
  split
  · exact second
  · next more => rwa [List.head?_append_of_ne_nil _ (by simpa using more)]

theorem no_parenthesis_of_append {s t : List Char} (closed : NoParenthesis (s ++ t)) : NoParenthesis s := by
  intro opens
  have more : s.dropWhile Unicode.isWhiteSpace ≠ [] := List.ne_nil_of_mem (List.mem_of_mem_head? opens)
  refine closed ?_
  rw [List.dropWhile_append, if_neg (by simpa using more), List.head?_append_of_ne_nil _ more, opens]

/-- The token that is found at a place of a line, if no comment, is found there with a note at the
end of the line. -/
theorem first_noted {c : Char} {s text after : List Char} {kind : TokenKind}
    (ends : ending = [] ∨ ending = ['\n']) (found : first? (c :: s ++ ending) = some (kind, text, after))
    (semicolon : c ≠ ';') (pattern : kind = .affixPattern → ' ' ∈ text ∨ ¬ ClosesField comment)
    (percent : c = '%' → NoParenthesis s) :
    ∃ rest, after = rest ++ ending ∧
      first? (c :: s ++ (note comment ++ ending)) = some (kind, text, rest ++ (note comment ++ ending)) := by
  have stops : Stops (note comment ++ ending) := note_stops
  by_cases quote : c = '"'
  · subst quote
    rw [List.cons_append, first_quote] at found
    obtain ⟨⟨text', after'⟩, searched, same⟩ := Option.map_eq_some_iff.mp found
    cases same
    obtain ⟨rest, rfl, further⟩ := up_to_append (by decide) (by decide) ends searched
    exact ⟨rest, rfl, by rw [List.cons_append, first_quote, further]; rfl⟩
  by_cases caret : c = '^'
  · subst caret
    rw [List.cons_append, first_caret] at found
    obtain ⟨⟨text', after'⟩, searched, same⟩ := Option.map_eq_some_iff.mp found
    cases same
    obtain ⟨rest, rfl, further⟩ := up_to_append (by decide) (by decide) ends searched
    exact ⟨rest, rfl, by rw [List.cons_append, first_caret, further]; rfl⟩
  by_cases parenthesis : c = '('
  · subst parenthesis
    rw [List.cons_append, first_parenthesis] at found
    obtain ⟨⟨text', after'⟩, searched, same⟩ := Option.map_eq_some_iff.mp found
    cases same
    have absent : ')' ∉ ending := by rcases ends with rfl | rfl <;> simp
    have safe : ' ' ∈ text ∨
        ∃ u, note comment ++ ending = ' ' :: ';' :: u ∧ (fieldChars u).2.head? ≠ some ')' :=
      (pattern rfl).imp_right fun unclosed => ⟨comment ++ ending, rfl, fun stop =>
        unclosed ((closes_field_append absent).mp (closes_field_of_field_chars stop))⟩
    obtain ⟨rest, rfl, further⟩ := affix_pattern_append ends searched safe
    exact ⟨rest, rfl, by rw [List.cons_append, first_parenthesis, further]; rfl⟩
  have moved (t : List Char) (stops : Stops t) (closed : NoParenthesis t) : KeepsFirst (c :: s) t := by
    by_cases sign : c = '%'
    · subst sign
      have none := percent rfl
      exact keeps_first_of_percent stops (letter_set_of_no_parenthesis none)
        (letter_set_of_no_parenthesis (no_parenthesis_append none closed))
    · exact keeps_first_of_other stops (by simp [semicolon, quote, caret, parenthesis, sign])
  have closed : NoParenthesis ending := by rcases ends with rfl | rfl <;> simp [NoParenthesis]
  have dark : Unicode.isWhiteSpace ';' = false := by decide
  have closed' : NoParenthesis (note comment ++ ending) := by simp [NoParenthesis, note, dark]
  have here := moved ending (end_stops ends) closed
  have there := moved _ stops closed'
  rw [KeepsFirst] at here there
  rw [here] at found
  obtain ⟨⟨kind', text', rest⟩, alone, same⟩ := Option.map_eq_some_iff.mp found
  cases same
  exact ⟨rest, rfl, by rw [there, alone]; rfl⟩

/-- A percent sign with a parenthesis after it is a symbol, if it starts no letter set. -/
theorem first_percent_symbol {s text after : List Char} {kind : TokenKind}
    (found : first? ('%' :: s) = some (kind, text, after)) (letters : kind ≠ .letterSet)
    (opens : ¬ NoParenthesis s) : kind = .identifier ∧ after = s := by
  have opens : (s.dropWhile Unicode.isWhiteSpace).head? = some '(' := not_not.mp opens
  cases s with
  | nil => cases opens
  | cons d s =>
    have broken : isSymbolChar d = false ∧ d ≠ 'p' ∧ d ≠ 's' := by
      by_cases white : Unicode.isWhiteSpace d = true
      · refine ⟨by simp [isSymbolChar, white], ?_, ?_⟩ <;> exact (ne_of_white white (by decide)).symm
      · rw [List.dropWhile_cons_of_neg white] at opens
        cases opens
        decide
    obtain ⟨noSymbol, noPrefix, noSuffix⟩ := broken
    have percent : isSymbolChar '%' = true := by decide
    cases lettered : letterSet ('%' :: d :: s) with
    | some answer =>
      simp [first?, rules, lineComment, between, quotedSymbol, literal, List.isPrefixOf?, coreference,
        lettered] at found
      exact absurd found.1.symm letters
    | none =>
      simp [first?, rules, lineComment, between, quotedSymbol, literal, List.isPrefixOf?, coreference,
        lettered, affixMarker, affixPattern, symbol, percent, noSymbol, noPrefix.symm, noSuffix.symm]
        at found
      exact ⟨found.1.symm, found.2.2.symm⟩

/-- No name stands directly before an affix pattern. -/
def PatternsApart (tokens : List Token) : Prop :=
  tokens.IsChain fun t u => ¬ (t.kind = .identifier ∧ u.kind = .affixPattern)

/-- Tokens that stay as they are if a note with this comment is added to the line of this number:
there is no letter set on the line, and each affix pattern on it has a space or the comment closes no
field. -/
structure Unaffected (comment : List Char) (number : Nat) (tokens : List Token) : Prop where
  letters : ∀ t ∈ tokens, t.line = number → t.kind ≠ .letterSet
  patterns : ∀ t ∈ tokens, t.line = number → t.kind = .affixPattern →
    ' ' ∈ t.text.toList ∨ ¬ ClosesField comment
  apart : PatternsApart tokens

theorem Unaffected.of_infix {number : Nat} {tokens part : List Token}
    (unaffected : Unaffected comment number tokens) (inside : part <:+: tokens) :
    Unaffected comment number part where
  letters := fun t member => unaffected.letters t (inside.mem member)
  patterns := fun t member => unaffected.patterns t (inside.mem member)
  apart := unaffected.apart.infix inside

theorem Unaffected.tail {number : Nat} {t : Token} {tokens : List Token}
    (unaffected : Unaffected comment number (t :: tokens)) : Unaffected comment number tokens :=
  unaffected.of_infix (List.suffix_cons t tokens).isInfix

/-- The scan of a line with a note: it finds the same tokens, comments apart, and leaves nothing
unclosed. -/
def LineScan.SameAs (scan other : LineScan) : Prop :=
  scan.ending = .ok none ∧ withoutComments scan.tokens = withoutComments other.tokens

theorem LineScan.SameAs.after {scan other : LineScan} (same : scan.SameAs other) (t : Token) :
    (scan.after t).SameAs (other.after t) := by
  refine ⟨same.1, ?_⟩
  simp only [LineScan.after, withoutComments, List.filter_cons]
  rw [← withoutComments, ← withoutComments, same.2]

theorem walk_line_end (number : Nat) (line : List Char) (ends : ending = [] ∨ ending = ['\n']) :
    walk number line ending 0 = { tokens := [], ending := .ok none } := by
  rcases ends with rfl | rfl
  · rw [walk]
  · rw [walk_white white_feed, walk]

/-- A line comment takes the rest of its line. -/
theorem walk_comment (number : Nat) (line : List Char) (plain : '\n' ∉ comment)
    (ends : ending = [] ∨ ending = ['\n']) :
    walk number line (';' :: (comment ++ ending)) 0 =
      { tokens := [{ kind := .lineComment, text := String.ofList comment, line := number, lastLine := number }]
        ending := .ok none } := by
  have kept : ∀ c ∈ comment, decide (c ≠ '\n') = true := by
    intro c member
    have apart : c ≠ '\n' := fun same => plain (same ▸ member)
    simpa using apart
  have found : first? (';' :: (comment ++ ending)) = some (.lineComment, comment, ending) := by
    rw [first_semicolon, List.takeWhile_append_of_pos kept, List.dropWhile_append_of_pos kept]
    rcases ends with rfl | rfl <;> simp
  rw [walk_lexeme (by decide) (by simp [Enclosure.opening?, Enclosure.opener, List.isPrefixOf?]) found,
    walk_line_end number line ends]
  rfl

theorem walk_note (number : Nat) (line : List Char) (plain : '\n' ∉ comment)
    (ends : ending = [] ∨ ending = ['\n']) (other : LineScan) (nothing : withoutComments other.tokens = []) :
    (walk number line (note comment ++ ending) 0).SameAs other := by
  rw [note, List.cons_append, List.cons_append, walk_white white_space, walk_comment number line plain ends]
  exact ⟨rfl, by rw [nothing]; rfl⟩

/-- A name that is only a percent sign has no parenthesis after it. -/
theorem no_parenthesis_after_percent {number : Nat} {line s text after : List Char} {kind : TokenKind}
    (found : first? ('%' :: s) = some (kind, text, after)) (letters : kind ≠ .letterSet)
    (whole : (walk number line after 0).ending = .ok none)
    (apart : PatternsApart ({ kind, text := String.ofList text, line := number, lastLine := number } ::
      (walk number line after 0).tokens)) : NoParenthesis s := by
  by_contra opens
  obtain ⟨rfl, rfl⟩ := first_percent_symbol found letters opens
  have opens : (after.dropWhile Unicode.isWhiteSpace).head? = some '(' := not_not.mp opens
  obtain ⟨body, shape⟩ := List.head?_eq_some_iff.mp opens
  rw [walk_drop_white, shape] at whole apart
  have opened : Enclosure.opening? ('(' :: body) = none := by
    simp [Enclosure.opening?, Enclosure.opener, List.isPrefixOf?]
  cases pattern : affixPattern ('(' :: body) with
  | none =>
    rw [walk_stuck (by decide) opened (by rw [first_parenthesis, pattern]; rfl)] at whole
    cases whole
  | some answer =>
    obtain ⟨text', after'⟩ := answer
    have next : first? ('(' :: body) = some (.affixPattern, text', after') := by
      rw [first_parenthesis, pattern]
      rfl
    rw [walk_lexeme (by decide) opened next] at apart
    exact (List.isChain_cons_cons.mp apart).1 ⟨rfl, rfl⟩

/-- The rest of a line after an enclosed text has the note at its end. -/
private theorem closing_noted {number : Nat} {line line' s : List Char} {u : Unclosed}
    (ends : ending = [] ∨ ending = ['\n']) (noFeed : '\n' ∉ s)
    (whole : (closing number line u (s ++ ending)).ending = .ok none)
    (unaffected : Unaffected comment number (closing number line u (s ++ ending)).tokens)
    (walked : ∀ text rest, upToCloser u.enclosure.closer (s ++ ending) = some (text, rest ++ ending) →
      '\n' ∉ rest → (walk number line (rest ++ ending) 0).ending = .ok none →
      Unaffected comment number (walk number line (rest ++ ending) 0).tokens →
      (walk number line' (rest ++ (note comment ++ ending)) 0).SameAs (walk number line (rest ++ ending) 0)) :
    (closing number line' u (s ++ (note comment ++ ending))).SameAs (closing number line u (s ++ ending)) := by
  rw [closing] at whole unaffected ⊢
  cases closed : upToCloser u.enclosure.closer (s ++ ending) with
  | none =>
    rw [closed] at whole
    cases whole
  | some answer =>
    obtain ⟨text, after⟩ := answer
    rw [closed] at whole unaffected
    obtain ⟨shape, encloses⟩ := enclosed_eq_some closed
    have last : (text ++ u.enclosure.closer).getLast? ≠ some '\n' := by
      cases u.enclosure <;> simp [Enclosure.closer]
    obtain ⟨rest, rfl, rfl⟩ := split_at_end ends last shape
    rw [closing, closed, List.append_assoc, encloses]
    exact LineScan.SameAs.after (walked text rest closed
      (fun member => noFeed (List.mem_append_right _ member)) whole unaffected.tail) _

/-- The next token of a line, if no comment, is found with a note at the end of the line, too. -/
private theorem next_noted {number : Nat} {line s text after : List Char} {c : Char} {kind : TokenKind}
    (ends : ending = [] ∨ ending = ['\n']) (semicolon : c ≠ ';')
    (opened : Enclosure.opening? (c :: (s ++ ending)) = none)
    (found : first? (c :: (s ++ ending)) = some (kind, text, after))
    (whole : (walk number line after 0).ending = .ok none)
    (unaffected : Unaffected comment number
      ({ kind, text := String.ofList text, line := number, lastLine := number } ::
        (walk number line after 0).tokens)) :
    ∃ before rest, s = before ++ rest ∧ after = rest ++ ending ∧
      Enclosure.opening? (c :: (s ++ (note comment ++ ending))) = none ∧
      first? (c :: (s ++ (note comment ++ ending))) = some (kind, text, rest ++ (note comment ++ ending)) := by
  have letters : kind ≠ .letterSet := unaffected.letters _ (List.mem_cons_self ..) rfl
  have pattern : kind = .affixPattern → ' ' ∈ text ∨ ¬ ClosesField comment := by
    simpa using unaffected.patterns _ (List.mem_cons_self ..) rfl
  have percent : c = '%' → NoParenthesis s := by
    rintro rfl
    exact no_parenthesis_of_append (no_parenthesis_after_percent found letters whole unaffected.apart)
  obtain ⟨rest, rfl, found'⟩ := first_noted ends found semicolon pattern percent
  obtain ⟨before, same⟩ := suffix_of_first found
  rw [← List.append_assoc] at same
  refine ⟨before, rest, (List.append_cancel_right same).symm, rfl, ?_, found'⟩
  rw [← List.cons_append, opening_append (end_stops ends), Option.map_eq_none_iff] at opened
  rw [← List.cons_append, opening_append note_stops, opened]
  rfl

/-- With a note at its end a line is scanned like without it. -/
theorem walk_noted {number : Nat} {line line' s : List Char} (plain : '\n' ∉ comment)
    (ends : ending = [] ∨ ending = ['\n']) (noFeed : '\n' ∉ s)
    (whole : (walk number line (s ++ ending) 0).ending = .ok none)
    (unaffected : Unaffected comment number (walk number line (s ++ ending) 0).tokens) :
    (walk number line' (s ++ (note comment ++ ending)) 0).SameAs (walk number line (s ++ ending) 0) := by
  generalize remainder : s ++ ending = u at whole unaffected ⊢
  induction u using remainder_induction generalizing s with
  | nil =>
    obtain ⟨rfl, rfl⟩ := List.append_eq_nil_iff.mp remainder
    exact walk_note number line' plain ends _ rfl
  | white c u white ih =>
    rw [walk_white white] at whole unaffected ⊢
    cases s with
    | nil =>
      rcases ends with rfl | rfl
      · cases remainder
      · cases remainder
        exact walk_note number line' plain (.inr rfl) _ rfl
    | cons d s =>
      obtain ⟨rfl, rest⟩ := List.cons.inj remainder
      rw [List.cons_append, walk_white white]
      exact ih (fun member => noFeed (List.mem_cons_of_mem _ member)) rest whole unaffected
  | enclosed enclosure body ih =>
    have last : enclosure.opener.getLast? ≠ some '\n' := by cases enclosure <;> simp [Enclosure.opener]
    obtain ⟨rest, rfl, rfl⟩ := split_at_end ends last remainder
    rw [walk_opener] at whole unaffected ⊢
    rw [List.append_assoc, walk_opener]
    exact closing_noted ends (fun member => noFeed (List.mem_append_right _ member)) whole unaffected
      fun text rest closed noFeed whole unaffected => ih text _ closed noFeed rfl whole unaffected
  | other c u dark opened ih =>
    cases s with
    | nil =>
      rcases ends with rfl | rfl <;> cases remainder
      cases dark
    | cons d s =>
      rw [List.cons_append] at remainder
      obtain ⟨rfl, rfl⟩ := List.cons.inj remainder
      have noFeed' : '\n' ∉ s := fun member => noFeed (List.mem_cons_of_mem _ member)
      by_cases semicolon : d = ';'
      · subst semicolon
        have plain' : '\n' ∉ s ++ note comment := by simp [note, noFeed', plain]
        rw [walk_comment number line noFeed' ends, List.cons_append, ← List.append_assoc,
          walk_comment number line' plain' ends]
        exact ⟨rfl, rfl⟩
      cases found : first? (d :: (s ++ ending)) with
      | none =>
        rw [walk_stuck dark opened found] at whole
        cases whole
      | some answer =>
        obtain ⟨kind, text, after⟩ := answer
        rw [walk_lexeme dark opened found] at whole unaffected ⊢
        obtain ⟨before, rest, rfl, rfl, opened', found'⟩ :=
          next_noted ends semicolon opened found whole unaffected
        rw [List.cons_append, walk_lexeme dark opened' found']
        exact LineScan.SameAs.after (ih kind text _ found
          (fun member => noFeed' (List.mem_append_right _ member)) rfl whole unaffected.tail) _

/-- The same line, on which an enclosure may still be unclosed. -/
theorem scan_line_noted {number : Nat} {unclosed : Option Unclosed} {line : List Char} (plain : '\n' ∉ comment)
    (ends : ending = [] ∨ ending = ['\n']) (noFeed : '\n' ∉ line)
    (whole : (scanLine number (line ++ ending) unclosed).ending = .ok none)
    (unaffected : Unaffected comment number (scanLine number (line ++ ending) unclosed).tokens) :
    (scanLine number (line ++ (note comment ++ ending)) unclosed).SameAs
      (scanLine number (line ++ ending) unclosed) := by
  cases unclosed with
  | none => exact walk_noted plain ends noFeed whole unaffected
  | some u =>
    rw [scan_line_unclosed] at whole unaffected ⊢
    rw [scan_line_unclosed]
    exact closing_noted ends noFeed whole unaffected
      fun text rest _ noFeed whole unaffected => walk_noted plain ends noFeed whole unaffected

/-! ## Lines -/

/-- What is unclosed before some lines belongs to a token that ends on one of them, if they are scanned
without a fault. -/
theorem exists_token_of_unclosed {failure : Option String} {read : Nat} {u : Unclosed}
    {lines : List (List Char)} (whole : (scanLines failure read (some u) lines).error = none) :
    ∃ t ∈ (scanLines failure read (some u) lines).tokens, t.line = u.line ∧ read < t.lastLine := by
  induction lines generalizing read u with
  | nil => cases failure <;> cases whole
  | cons line lines ih =>
    rw [scanLines, scan_line_unclosed, closing] at whole ⊢
    cases closed : upToCloser u.enclosure.closer line with
    | none =>
      rw [closed] at whole
      obtain ⟨t, member, starts, ended⟩ := ih whole
      exact ⟨t, member, starts, Nat.lt_of_succ_lt ended⟩
    | some answer =>
      obtain ⟨text, after⟩ := answer
      refine ⟨u.token text (read + 1), ?_, rfl, Nat.lt_succ_self read⟩
      simp only [LineScan.after]
      split <;> exact List.mem_cons_self ..

/-- The scan with a note: it has no fault and finds the same tokens, comments apart. -/
def Scan.SameAs (scan other : Scan) : Prop :=
  scan.error = none ∧ withoutComments scan.tokens = withoutComments other.tokens

/-- What was opened on an earlier line, or on this one, is opened no later than on this line. -/
private theorem opened_by {read : Nat} {line : List Char} {unclosed left : Option Unclosed}
    (opened : ∀ u ∈ unclosed, u.line ≤ read) (ending : (scanLine (read + 1) line unclosed).ending = .ok left) :
    ∀ u ∈ left, u.line ≤ read + 1 := by
  rintro u held
  obtain rfl := Option.mem_def.mp held
  exact (scan_line_token_lines (read + 1) line unclosed).2 u ending
    fun u held => Nat.le_succ_of_le (opened u held)

/-- A line leaves nothing unclosed if no token that starts by then ends later. -/
private theorem nothing_left {failure : Option String} {read : Nat} {left : Option Unclosed}
    {below : List (List Char)} (opened : ∀ u ∈ left, u.line ≤ read)
    (whole : (scanLines failure read left below).error = none)
    (closed : ∀ t ∈ (scanLines failure read left below).tokens, t.line ≤ read → t.lastLine ≤ read) :
    left = none := by
  refine Option.eq_none_iff_forall_ne_some.mpr fun u held => ?_
  subst held
  obtain ⟨t, member, starts, ended⟩ := exists_token_of_unclosed whole
  exact Nat.not_lt_of_le (closed t member (starts ▸ opened u rfl)) ended

/-- With a note at the end of one of them lines are scanned like without it, if the line leaves
nothing unclosed. -/
theorem scan_lines_noted {failure : Option String} {read number : Nat} {unclosed : Option Unclosed}
    {above below : List (List Char)} {line : List Char} (plain : '\n' ∉ comment)
    (ends : ending = [] ∨ ending = ['\n']) (noFeed : '\n' ∉ line) (place : number = read + above.length + 1)
    (opened : ∀ u ∈ unclosed, u.line ≤ read)
    (whole : (scanLines failure read unclosed (above ++ (line ++ ending) :: below)).error = none)
    (closed : ∀ t ∈ (scanLines failure read unclosed (above ++ (line ++ ending) :: below)).tokens,
      t.line ≤ number → t.lastLine ≤ number)
    (unaffected : Unaffected comment number
      (scanLines failure read unclosed (above ++ (line ++ ending) :: below)).tokens) :
    (scanLines failure read unclosed (above ++ (line ++ (note comment ++ ending)) :: below)).SameAs
      (scanLines failure read unclosed (above ++ (line ++ ending) :: below)) := by
  induction above generalizing read unclosed with
  | nil =>
    obtain rfl : number = read + 1 := place
    rw [List.nil_append, scanLines] at whole closed unaffected ⊢
    rw [List.nil_append, scanLines]
    cases left : (scanLine (read + 1) (line ++ ending) unclosed).ending with
    | error fault =>
      rw [left] at whole
      cases whole
    | ok unclosed' =>
      rw [left] at whole closed unaffected
      obtain rfl := nothing_left (opened_by opened left) whole fun t member =>
        closed t (List.mem_append_right _ member)
      obtain ⟨ending', same⟩ := scan_line_noted plain ends noFeed left
        (unaffected.of_infix (List.prefix_append _ _).isInfix)
      simp only [ending', Scan.SameAs, Scan.after, withoutComments, List.filter_append]
      rw [← withoutComments, same]
      exact ⟨whole, rfl⟩
  | cons first above ih =>
    rw [List.cons_append, scanLines] at whole closed unaffected ⊢
    rw [List.cons_append, scanLines]
    cases left : (scanLine (read + 1) first unclosed).ending with
    | error fault =>
      rw [left] at whole
      cases whole
    | ok unclosed' =>
      rw [left] at whole closed unaffected
      obtain ⟨whole', same⟩ := ih (by rw [place, List.length_cons]; omega) (opened_by opened left) whole
        (fun t member => closed t (List.mem_append_right _ member))
        (unaffected.of_infix (List.suffix_append _ _).isInfix)
      simp only [Scan.SameAs, Scan.after, withoutComments, List.filter_append]
      rw [← withoutComments, ← withoutComments, same]
      exact ⟨whole', rfl⟩

end Note

end TypeDescription
