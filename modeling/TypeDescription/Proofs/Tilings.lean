import TypeDescription.Proofs.Admission
import TypeDescription.Proofs.Gatherings

/-!
What a scan takes from a text. Every rule takes the written form of its token off the text, an
enclosed text is taken with its delimiters, and what is passed otherwise is white space. So the
text that has been scanned is tiled by the tokens and white space, and the number of a line is known
from the line feeds before it.
-/

namespace TypeDescription

open Lexeme

/-! ## Tokens in a text -/

/-- This is how the token may stand in a text: as it is written, but for white space after the
percent sign of a letter set and after its last parenthesis. -/
def Token.Shows (t : Token) (span : List Char) : Prop :=
  span = t.written.toList ∨
    t.kind = .letterSet ∧ ∃ gap trail, (∀ c ∈ gap ++ trail, Unicode.isWhiteSpace c = true) ∧
      span = '%' :: gap ++ '(' :: t.text.toList ++ ')' :: trail

/-- A rule takes what its token may stand as. -/
private def TakesSome (entry : TokenKind × (List Char → Option Match)) : Prop :=
  ∀ s text after, entry.2 s = some (text, after) → ∃ span, s = span ++ after ∧ span ≠ [] ∧
    ∀ line lastLine,
      Token.Shows { kind := entry.1, text := String.ofList text, line, lastLine } span

/-- It is enough that a rule takes the written form. -/
private theorem takes_of_written {kind : TokenKind} {rule : List Char → Option Match}
    (taken : ∀ s text after, rule s = some (text, after) →
      s = (Token.spelling kind (String.ofList text)).toList ++ after ∧
        (Token.spelling kind (String.ofList text)).toList ≠ []) : TakesSome (kind, rule) := by
  intro s text after answer
  obtain ⟨shape, nonempty⟩ := taken s text after answer
  exact ⟨_, shape, nonempty, fun line lastLine => .inl rfl⟩

private theorem takes_literal {kind : TokenKind} {spelled : List Char} (nonempty : spelled ≠ [])
    (bare : Token.spelling kind (String.ofList spelled) = String.ofList spelled) :
    TakesSome (kind, literal spelled) := by
  refine takes_of_written fun s text after answer => ?_
  obtain ⟨rfl, shape⟩ := literal_eq_some_iff.mp answer
  rw [bare, String.toList_ofList]
  exact ⟨shape, nonempty⟩

theorem line_comment_eq_some {s text after : List Char} (answer : lineComment s = some (text, after)) :
    s = ';' :: text ++ after := by
  rw [lineComment.eq_def] at answer
  split at answer
  · cases answer
    rw [List.cons_append, List.takeWhile_append_dropWhile]
  · cases answer

theorem affix_marker_eq_some {s text after : List Char} (answer : affixMarker s = some (text, after)) :
    s = '%' :: text ++ after := by
  rw [affixMarker.eq_def] at answer
  split at answer
  · next rest =>
    split at answer
    · next found front =>
      cases answer
      obtain ⟨rfl, rfl⟩ := literal_eq_some_iff.mp front
      rfl
    · obtain ⟨rfl, rfl⟩ := literal_eq_some_iff.mp answer
      rfl
  · cases answer

/-- A letter set takes the rest of its line. -/
theorem letter_set_eq_some {s text after : List Char} (answer : letterSet s = some (text, after)) :
    after = [] ∧ ∃ gap trail, (∀ c ∈ gap ++ trail, Unicode.isWhiteSpace c = true) ∧
      s = '%' :: gap ++ '(' :: text ++ ')' :: trail := by
  rw [letterSet.eq_def] at answer
  split at answer
  · next rest =>
    split at answer
    · next body opens =>
      split at answer
      · next before closes =>
        cases answer
        let gap := rest.takeWhile Unicode.isWhiteSpace
        let trail := (body.reverse.takeWhile Unicode.isWhiteSpace).reverse
        have inner : body = before.reverse ++ ')' :: trail := by
          have split := (body.reverse.takeWhile_append_dropWhile (p := Unicode.isWhiteSpace)).symm
          rw [closes] at split
          simpa [trail] using congrArg List.reverse split
        have whole : rest = gap ++ '(' :: body := by
          rw [← opens, List.takeWhile_append_dropWhile]
        refine ⟨rfl, gap, trail, ?_, by rw [whole, inner]; simp⟩
        intro c member
        rcases List.mem_append.mp member with inside | inside
        · exact List.all_eq_true.mp List.all_takeWhile c inside
        · exact List.all_eq_true.mp List.all_takeWhile c (List.mem_reverse.mp inside)
      · cases answer
    · cases answer
  · cases answer

private theorem takes_letter_set : TakesSome (.letterSet, letterSet) := by
  intro s text after answer
  obtain ⟨rfl, gap, trail, space, shape⟩ := letter_set_eq_some answer
  refine ⟨s, (List.append_nil s).symm, by simp [shape], fun line lastLine => ?_⟩
  exact .inr ⟨rfl, gap, trail, space, by rw [String.toList_ofList, shape]⟩

/-- What every rule of the table takes. -/
private theorem rules_take : ∀ entry ∈ rules, TakesSome entry := by
  have between_takes {kind : TokenKind} {opener closer : Char} (plain : closer ≠ '\\')
      (enclosed : ∀ text, (Token.spelling kind text).toList = opener :: text.toList ++ [closer]) :
      TakesSome (kind, between opener closer) := by
    refine takes_of_written fun s text after answer => ?_
    obtain ⟨-, shape⟩ := between_eq_some plain answer
    simp [shape, enclosed]
  have comment : TakesSome (.lineComment, lineComment) := takes_of_written fun s text after answer => by
    simp [line_comment_eq_some answer, Token.spelling]
  have quoted : TakesSome (.quotedSymbol, quotedSymbol) := takes_of_written fun s text after answer => by
    simp [(quoted_symbol_eq_some answer).2, Token.spelling]
  have coref : TakesSome (.coreference, coreference) := takes_of_written fun s text after answer => by
    obtain ⟨tag, rfl, -, shape⟩ := coreference_eq_some answer
    simp [shape, Token.spelling]
  have marker : TakesSome (.affixMarker, affixMarker) := takes_of_written fun s text after answer => by
    simp [affix_marker_eq_some answer, Token.spelling]
  have pattern : TakesSome (.affixPattern, affixPattern) := takes_of_written fun s text after answer => by
    simp [(affix_pattern_eq_some answer).2, Token.spelling]
  have name : TakesSome (.identifier, symbol) := takes_of_written fun s text after answer => by
    obtain ⟨symbolic, shape⟩ := symbol_eq_some answer
    simp [shape, symbolic.nonempty, Token.spelling]
  have string : TakesSome (.string, between '"' '"') :=
    between_takes (by decide) fun text => by simp [Token.spelling]
  have regex : TakesSome (.regex, between '^' '$') :=
    between_takes (by decide) fun text => by simp [Token.spelling]
  simp only [rules, List.forall_mem_cons]
  refine ⟨comment, string, quoted, regex, ?_, ?_, ?_, ?_, ?_, ?_, ?_, ?_, ?_, ?_, ?_, ?_, ?_, coref,
    takes_letter_set, marker, pattern, ?_, name, List.forall_mem_nil _⟩
  all_goals exact takes_literal (List.cons_ne_nil _ _) rfl

/-- A token takes what it may stand as off the text. -/
theorem shows_of_first {s text after : List Char} {kind : TokenKind}
    (answer : first? s = some (kind, text, after)) :
    ∃ span, s = span ++ after ∧ span ≠ [] ∧
      ∀ line lastLine, Token.Shows { kind, text := String.ofList text, line, lastLine } span := by
  obtain ⟨rule, member, ruled⟩ := rule_of_first answer
  exact rules_take _ member s text after ruled

/-! ## Remainders of a line -/

/-- What a lexeme leaves is a part of what follows its first character. -/
theorem suffix_of_first {c : Char} {s text after : List Char} {kind : TokenKind}
    (found : first? (c :: s) = some (kind, text, after)) : after <:+ s := by
  obtain ⟨span, whole, nonempty, -⟩ := shows_of_first found
  obtain ⟨d, span', rfl⟩ := List.exists_cons_of_ne_nil nonempty
  exact ⟨span', (List.cons.inj whole).2.symm⟩

section Walk

variable {number : Nat} {line s : List Char} {c : Char}

theorem walk_white (white : Unicode.isWhiteSpace c = true) :
    walk number line (c :: s) 0 = walk number line s 0 := by
  rw [walk, if_pos white]

theorem walk_lexeme {kind : TokenKind} {text after : List Char} (dark : Unicode.isWhiteSpace c = false)
    (opened : Enclosure.opening? (c :: s) = none) (found : first? (c :: s) = some (kind, text, after)) :
    walk number line (c :: s) 0 = (walk number line after 0).after
      { kind, text := String.ofList text, line := number, lastLine := number } := by
  rw [walk, if_neg (by simp [dark]), opened]
  simp only [found, walk_suffix (suffix_of_first found)]

theorem walk_stuck (dark : Unicode.isWhiteSpace c = false) (opened : Enclosure.opening? (c :: s) = none)
    (nothing : first? (c :: s) = none) :
    walk number line (c :: s) 0 =
      { tokens := [], ending := .error (unexpectedAt number line (c :: s)) } := by
  rw [walk, if_neg (by simp [dark]), opened]
  simp only [nothing]

end Walk

/-- Remainders of a line, by what they start with: white space, an enclosure, or something else. -/
theorem remainder_induction {P : List Char → Prop} (nil : P [])
    (white : ∀ c s, Unicode.isWhiteSpace c = true → P s → P (c :: s))
    (enclosed : ∀ enclosure body, (∀ text after, upToCloser (Enclosure.closer enclosure) body =
      some (text, after) → P after) → P (enclosure.opener ++ body))
    (other : ∀ c s, Unicode.isWhiteSpace c = false → Enclosure.opening? (c :: s) = none →
      (∀ kind text after, first? (c :: s) = some (kind, text, after) → P after) → P (c :: s))
    (s : List Char) : P s := by
  induction length : s.length using Nat.strongRecOn generalizing s with
  | ind n ih =>
    subst length
    cases s with
    | nil => exact nil
    | cons c s =>
      cases space : Unicode.isWhiteSpace c with
      | true => exact white c s space (ih s.length (Nat.lt_succ_self _) s rfl)
      | false =>
        cases opened : Enclosure.opening? (c :: s) with
        | some found =>
          obtain ⟨enclosure, body⟩ := found
          have shape := opening_eq_some opened
          rw [shape] at ih ⊢
          refine enclosed enclosure body fun text after closed => ih _ ?_ after rfl
          obtain ⟨inside, -⟩ := enclosed_eq_some closed
          have room := List.length_pos_iff.mpr (plain_closer enclosure).2.2
          rw [inside]
          simp only [List.length_append]
          omega
        | none =>
          refine other c s space opened fun kind text after found => ih _ ?_ after rfl
          exact Nat.lt_succ_of_le (suffix_of_first found).length_le

/-! ## Tilings -/

/-- The text, which starts on this line, is white space and the spans of these tokens. -/
inductive Tiles : Nat → List Char → List Token → Prop where
  | nil {line : Nat} : Tiles line [] []
  | white {line : Nat} {c : Char} {s : List Char} {tokens : List Token}
    (space : Unicode.isWhiteSpace c = true) (later : Tiles (line + [c].count '\n') s tokens) :
    Tiles line (c :: s) tokens
  | token {line : Nat} {t : Token} {span s : List Char} {tokens : List Token} (nonempty : span ≠ [])
    (shows : t.Shows span) (starts : t.line = line)
    (later : Tiles (line + span.count '\n') s tokens) : Tiles line (span ++ s) (t :: tokens)

private theorem count_cons (c : Char) (s : List Char) :
    (c :: s).count '\n' = [c].count '\n' + s.count '\n' := by
  rw [← List.count_append, List.singleton_append]

namespace Tiles

variable {line : Nat} {s : List Char} {tokens : List Token}

theorem append {second : List Char} {tokens' : List Token} (tiles : Tiles line s tokens)
    (tiles' : Tiles (line + s.count '\n') second tokens') :
    Tiles line (s ++ second) (tokens ++ tokens') := by
  induction tiles with
  | nil => exact tiles'
  | white space later ih =>
    refine .white space (ih ?_)
    rwa [count_cons, ← Nat.add_assoc] at tiles'
  | token nonempty shows starts later ih =>
    rw [List.append_assoc]
    refine .token nonempty shows starts (ih ?_)
    rwa [List.count_append, ← Nat.add_assoc] at tiles'

/-- Every token takes up room. -/
theorem length_le (tiles : Tiles line s tokens) : tokens.length ≤ s.length := by
  induction tiles with
  | nil => exact Nat.le_refl 0
  | white space later ih => exact Nat.le_succ_of_le ih
  | token nonempty shows starts later ih =>
    have room := List.length_pos_iff.mpr nonempty
    rw [List.length_cons, List.length_append]
    omega

end Tiles

/-! ## Lines -/

/-- What is left of a text that is unclosed at its end. -/
def pending : Option Unclosed → List Char
  | none => []
  | some unclosed => unclosed.enclosure.opener ++ unclosed.text

/-- The line of what is left, or else the next line. -/
def pendingLine (next : Nat) : Option Unclosed → Nat
  | none => next
  | some unclosed => unclosed.line

/-- No token can start at this place of a line, and the fault says so. -/
def Stuck (number : Nat) (whole place : List Char) (fault : Error) : Prop :=
  place <:+ whole ∧ fault = unexpectedAt number whole place ∧
    ∃ c tail, place = c :: tail ∧ Unicode.isWhiteSpace c = false ∧
      Enclosure.opening? place = none ∧ first? place = none

/-- What is left over, from this line on, where a scan of the line `whole` ends like this. -/
def LeftOver (number : Nat) (whole : List Char) (ending : Except Error (Option Unclosed)) (line : Nat)
    (rest : List Char) : Prop :=
  match ending with
  | .ok left => rest = pending left ∧
      ∀ u ∈ left, u.line = line ∧ upToCloser u.enclosure.closer u.text = none
  | .error fault => Stuck number whole rest fault

/-- The scan tiles the text, which starts on this line, up to its fault or up to what it leaves
unclosed. -/
def LineScan.Tiles (scan : LineScan) (number : Nat) (whole : List Char) (line : Nat) (s : List Char) :
    Prop :=
  ∃ tiled rest, s = tiled ++ rest ∧ TypeDescription.Tiles line tiled scan.tokens ∧
    LeftOver number whole scan.ending (line + tiled.count '\n') rest

namespace LineScan.Tiles

variable {scan : LineScan} {number line line' : Nat} {whole s : List Char}

theorem white {c : Char} (space : Unicode.isWhiteSpace c = true)
    (later : scan.Tiles number whole (line + [c].count '\n') s) :
    scan.Tiles number whole line (c :: s) := by
  obtain ⟨tiled, rest, rfl, tiles, leaves⟩ := later
  refine ⟨c :: tiled, rest, rfl, .white space tiles, ?_⟩
  rwa [count_cons, ← Nat.add_assoc]

theorem token {t : Token} {span : List Char} (nonempty : span ≠ []) (shows : t.Shows span)
    (starts : t.line = line) (later : scan.Tiles number whole (line + span.count '\n') s) :
    (scan.after t).Tiles number whole line (span ++ s) := by
  obtain ⟨tiled, rest, rfl, tiles, leaves⟩ := later
  refine ⟨span ++ tiled, rest, (List.append_assoc ..).symm, .token nonempty shows starts tiles, ?_⟩
  rwa [List.count_append, ← Nat.add_assoc]

private theorem opener_ne_nil (enclosure : Enclosure) : enclosure.opener ≠ [] := by
  cases enclosure <;> exact List.cons_ne_nil _ _

/-- Where there is no text, the line does not matter. -/
theorem on_line (tiles : scan.Tiles number whole line s) (same : s ≠ [] → line = line') :
    scan.Tiles number whole line' s := by
  by_cases none : s = []
  · subst none
    obtain ⟨tiled, rest, shape, tiles, leaves⟩ := tiles
    obtain ⟨rfl, rfl⟩ := List.append_eq_nil_iff.mp shape.symm
    have no_tokens : scan.tokens = [] := List.length_eq_zero_iff.mp (Nat.le_zero.mp tiles.length_le)
    refine ⟨[], [], rfl, no_tokens ▸ .nil, ?_⟩
    cases ending : scan.ending with
    | error fault =>
      rw [ending] at leaves
      obtain ⟨-, -, c, tail, shape, -⟩ := leaves
      cases shape
    | ok left =>
      rw [ending] at leaves
      obtain ⟨nothing, -⟩ := leaves
      refine ⟨nothing, fun u held => ?_⟩
      rw [Option.mem_def.mp held, pending] at nothing
      exact absurd (List.append_eq_nil_iff.mp nothing.symm).1 (opener_ne_nil _)
  · exact same none ▸ tiles

end LineScan.Tiles

/-- A line feed at the end of a line is not in what stands before the end. -/
theorem count_of_inner {span s : List Char} (inner : '\n' ∉ (span ++ s).dropLast) (more : s ≠ []) :
    span.count '\n' = 0 := by
  rw [List.dropLast_append_of_ne_nil more] at inner
  exact List.count_eq_zero.mpr fun member => inner (List.mem_append_left _ member)

/-- A line feed at the end of a line is not in what stands before the end of its remainder. -/
theorem inner_of_suffix (span : List Char) {s : List Char} (inner : '\n' ∉ (span ++ s).dropLast) :
    '\n' ∉ s.dropLast := by
  by_cases none : s = []
  · subst none
    exact List.not_mem_nil
  · rw [List.dropLast_append_of_ne_nil none] at inner
    exact fun member => inner (List.mem_append_right _ member)

private theorem shows_enclosed (u : Unclosed) (text : List Char) (lastLine : Nat) :
    (u.token text lastLine).Shows (u.enclosure.opener ++ (u.text ++ text) ++ u.enclosure.closer) := by
  left
  obtain ⟨enclosure, line, before⟩ := u
  cases enclosure <;> simp [Unclosed.token, Token.written, Token.spelling, Enclosure.kind,
    Enclosure.opener, Enclosure.closer]

/-- An enclosed text is a tile with its delimiters, wherever it started. -/
private theorem closing_tiles {number : Nat} {line body : List Char} (u : Unclosed)
    (stays : StaysOpen u.enclosure.closer u.text)
    (walked : ∀ text after, upToCloser u.enclosure.closer body = some (text, after) →
      (walk number line after 0).Tiles number line
        (u.line + (pending (some u) ++ text ++ u.enclosure.closer).count '\n') after) :
    (closing number line u body).Tiles number line u.line (pending (some u) ++ body) := by
  rw [closing]
  split
  · next text after closed =>
    obtain ⟨shape, -⟩ := enclosed_eq_some closed
    have span : u.enclosure.opener ++ (u.text ++ text) ++ u.enclosure.closer =
        pending (some u) ++ text ++ u.enclosure.closer := by simp [pending]
    have whole : pending (some u) ++ body = pending (some u) ++ text ++ u.enclosure.closer ++ after := by
      rw [shape]
      simp
    rw [whole]
    refine .token ?_ (span ▸ shows_enclosed u text number) rfl (walked text after closed)
    simp [pending, LineScan.Tiles.opener_ne_nil]
  · next still =>
    refine ⟨[], _, rfl, .nil, by simp [pending], fun v held => ?_⟩
    cases held
    exact ⟨rfl, by rw [stays, still]; rfl⟩

/-- What follows a span of the remainder of a line is on the same line, if it is there at all. -/
private theorem tiles_after_span {number : Nat} {line : List Char} (span : List Char) {after : List Char}
    {scan : LineScan} (inner : '\n' ∉ (span ++ after).dropLast) (later : scan.Tiles number line number after) :
    scan.Tiles number line (number + span.count '\n') after :=
  later.on_line fun more => by rw [count_of_inner inner more, Nat.add_zero]

theorem walk_tiles (number : Nat) {line s : List Char} (tail : s <:+ line) (inner : '\n' ∉ s.dropLast) :
    (walk number line s 0).Tiles number line number s := by
  induction s using remainder_induction with
  | nil =>
    rw [walk]
    exact ⟨[], [], rfl, .nil, rfl, fun u held => absurd held (Option.not_mem_none u)⟩
  | white c s space ih =>
    rw [walk_white space]
    have later := ih ((List.suffix_cons c s).trans tail) (inner_of_suffix [c] inner)
    exact .white space (tiles_after_span [c] inner later)
  | enclosed enclosure body ih =>
    rw [walk_opener]
    let u : Unclosed := { enclosure, line := number, text := [] }
    have start : pending (some u) = enclosure.opener := List.append_nil _
    rw [← start] at tail inner ⊢
    refine closing_tiles u (fun more => by simp [u]) fun text after closed => ?_
    obtain ⟨shape, -⟩ := enclosed_eq_some closed
    have whole : pending (some u) ++ body = pending (some u) ++ text ++ u.enclosure.closer ++ after := by
      rw [shape]
      simp
    rw [whole] at tail inner
    exact tiles_after_span _ inner
      (ih text after closed ((List.suffix_append ..).trans tail) (inner_of_suffix _ inner))
  | other c s dark opened ih =>
    cases found : first? (c :: s) with
    | none =>
      rw [walk_stuck dark opened found]
      exact ⟨[], _, rfl, .nil, tail, rfl, c, s, rfl, dark, opened, found⟩
    | some answer =>
      obtain ⟨kind, text, after⟩ := answer
      obtain ⟨span, whole, nonempty, shows⟩ := shows_of_first found
      rw [walk_lexeme dark opened found]
      rw [whole] at tail inner ⊢
      exact .token nonempty (shows number number) rfl (tiles_after_span _ inner
        (ih kind text after found ((List.suffix_append ..).trans tail) (inner_of_suffix _ inner)))

/-- A line is tiled together with what the lines before it left unclosed. -/
theorem scan_line_tiles {number : Nat} {line : List Char} (inner : '\n' ∉ line.dropLast)
    {unclosed : Option Unclosed} (stays : ∀ u ∈ unclosed, StaysOpen u.enclosure.closer u.text)
    (placed : pendingLine number unclosed + (pending unclosed).count '\n' = number) :
    (scanLine number line unclosed).Tiles number line (pendingLine number unclosed)
      (pending unclosed ++ line) := by
  cases unclosed with
  | none => exact walk_tiles number List.suffix_rfl inner
  | some u =>
    rw [scan_line_unclosed]
    refine closing_tiles u (stays u rfl) fun text after closed => ?_
    obtain ⟨shape, -⟩ := enclosed_eq_some closed
    have tail : after <:+ line := ⟨text ++ u.enclosure.closer, shape.symm⟩
    have inner' : '\n' ∉ (text ++ u.enclosure.closer ++ after).dropLast := shape ▸ inner
    refine (walk_tiles number tail (inner_of_suffix _ inner')).on_line fun more => ?_
    rw [List.append_assoc, List.count_append, count_of_inner inner' more, Nat.add_zero]
    exact placed.symm

/-- The lines of a text: a line feed is only at their ends, and at the end of each but the last. -/
structure AreLines (lines : List (List Char)) : Prop where
  inner : ∀ line ∈ lines, '\n' ∉ line.dropLast
  ends : ∀ line ∈ lines.dropLast, line.getLast? = some '\n'

theorem AreLines.tail {line : List Char} {lines : List (List Char)} (areLines : AreLines (line :: lines)) :
    AreLines lines where
  inner := fun other member => areLines.inner other (List.mem_cons_of_mem _ member)
  ends := by
    cases lines with
    | nil => exact fun _ member => nomatch member
    | cons next lines => exact fun other member => areLines.ends other (List.mem_cons_of_mem _ member)

theorem count_of_line {line : List Char} (inner : '\n' ∉ line.dropLast)
    (ends : line.getLast? = some '\n') : line.count '\n' = 1 := by
  obtain ⟨before, rfl⟩ := List.getLast?_eq_some_iff.mp ends
  rw [List.dropLast_concat] at inner
  rw [List.count_append, List.count_eq_zero.mpr inner]
  rfl

/-- How a scan of the lines that follow the first `read` ones ends, and what is left over, from
this line on: nothing, an enclosure that is never closed, or a place of a line where the scan is
stuck. If reading fails after these lines, all that they leave over is the failure's. -/
def Scan.LeavesOver (scan : Scan) (failure : Option String) (read : Nat) (lines : List (List Char))
    (line : Nat) (rest : List Char) : Prop :=
  match scan.error with
  | none => failure = none ∧ rest = []
  | some fault =>
    (∃ reason, failure = some reason ∧ fault = .onLine (.unreadable reason) (read + lines.length + 1)) ∨
    (∃ enclosure body, failure = none ∧ rest = Enclosure.opener enclosure ++ body ∧
      upToCloser enclosure.closer body = none ∧ fault = .onLine enclosure.unterminated line ∧
        scan.linesRead = read + lines.length) ∨
    ∃ before whole after place, lines = before ++ whole :: after ∧ rest = place ++ after.flatten ∧
      Stuck (read + before.length + 1) whole place fault ∧ scan.linesRead = read + before.length + 1

namespace Scan.LeavesOver

variable {scan : Scan} {failure : Option String} {read line : Nat} {lines : List (List Char)}
  {rest : List Char}

theorem clean (leaves : scan.LeavesOver failure read lines line rest) (error : scan.error = none) :
    failure = none ∧ rest = [] := by
  rwa [LeavesOver, error] at leaves

theorem after {first : List Char} (leaves : scan.LeavesOver failure (read + 1) lines line rest)
    (tokens : List Token) : (scan.after tokens).LeavesOver failure read (first :: lines) line rest := by
  have count : read + 1 + lines.length = read + (first :: lines).length := by
    rw [List.length_cons]
    omega
  unfold LeavesOver at leaves ⊢
  rw [Scan.after]
  cases error : scan.error with
  | none => rwa [error] at leaves
  | some fault =>
    rw [error, count] at leaves
    rcases leaves with unreadable | unterminated | ⟨before, whole, after, place, rfl, shape, stuck, all⟩
    · exact .inl unreadable
    · exact .inr (.inl unterminated)
    · have place' : read + 1 + before.length = read + (first :: before).length := by
        rw [List.length_cons]
        omega
      rw [place'] at stuck all
      exact .inr (.inr ⟨first :: before, whole, after, place, rfl, shape, stuck, all⟩)

end Scan.LeavesOver

theorem end_leaves_over (failure : Option String) (read : Nat) {line : Nat} {unclosed : Option Unclosed}
    (opened : ∀ u ∈ unclosed, u.line = line ∧ upToCloser u.enclosure.closer u.text = none) :
    (scanLines failure read unclosed []).LeavesOver failure read [] line (pending unclosed) := by
  cases failure with
  | some reason => exact .inl ⟨reason, rfl, rfl⟩
  | none =>
    cases unclosed with
    | none => exact ⟨rfl, rfl⟩
    | some u =>
      obtain ⟨rfl, still⟩ := opened u rfl
      exact .inr (.inl ⟨u.enclosure, u.text, rfl, rfl, still, rfl, rfl⟩)

theorem StaysOpen.eq_none {closer text : List Char} (stays : StaysOpen closer text) :
    upToCloser closer text = none := by
  have alone := stays []
  rwa [List.append_nil, upToCloser, Option.map_none] at alone

/-- The lines are tiled together with what the lines before them left unclosed, up to what the scan
leaves over. -/
theorem scan_lines_tiles (failure : Option String) {read : Nat} {unclosed : Option Unclosed}
    {lines : List (List Char)} (areLines : AreLines lines)
    (stays : ∀ u ∈ unclosed, StaysOpen u.enclosure.closer u.text)
    (placed : pendingLine (read + 1) unclosed + (pending unclosed).count '\n' = read + 1) :
    ∃ tiled rest, pending unclosed ++ lines.flatten = tiled ++ rest ∧
      Tiles (pendingLine (read + 1) unclosed) tiled (scanLines failure read unclosed lines).tokens ∧
      (scanLines failure read unclosed lines).LeavesOver failure read lines
        (pendingLine (read + 1) unclosed + tiled.count '\n') rest := by
  induction lines generalizing read unclosed with
  | nil =>
    refine ⟨[], pending unclosed, List.append_nil _, .nil, end_leaves_over failure read fun u held => ?_⟩
    obtain rfl := Option.mem_def.mp held
    exact ⟨rfl, (stays u rfl).eq_none⟩
  | cons line lines ih =>
    have inner := areLines.inner line (List.mem_cons_self ..)
    obtain ⟨tiled, rest, shape, tiles, leaves⟩ := scan_line_tiles inner stays placed
    rw [List.flatten_cons, ← List.append_assoc, shape, scanLines]
    cases ending : (scanLine (read + 1) line unclosed).ending with
    | error fault =>
      rw [ending] at leaves
      exact ⟨tiled, rest ++ lines.flatten, List.append_assoc .., tiles,
        .inr (.inr ⟨[], line, lines, rest, rfl, rfl, leaves, rfl⟩)⟩
    | ok left =>
      rw [ending] at leaves
      obtain ⟨rfl, opened⟩ := id leaves
      by_cases last : lines = []
      · subst last
        refine ⟨tiled, pending left, by simp, ?_, (end_leaves_over failure (read + 1) opened).after _⟩
        simpa only [scanLines, Scan.after, List.append_nil] using tiles
      · have ends : line.getLast? = some '\n' := areLines.ends line (by
          rw [List.dropLast_cons_of_ne_nil last]
          exact List.mem_cons_self ..)
        have counted := congrArg (List.count '\n') shape
        rw [List.count_append, List.count_append, count_of_line inner ends] at counted
        have next : pendingLine (read + 1 + 1) left =
            pendingLine (read + 1) unclosed + tiled.count '\n' := by
          cases left with
          | some u => exact (opened u rfl).1
          | none =>
            rw [pending, List.count_nil] at counted
            rw [pendingLine]
            omega
        have placed' : pendingLine (read + 1 + 1) left + (pending left).count '\n' = read + 1 + 1 := by
          omega
        have stays' := scan_line_stays_open ends ending stays
        obtain ⟨tiled', rest', shape', tiles', leaves'⟩ := ih areLines.tail stays' placed'
        refine ⟨tiled ++ tiled', rest', by simp [shape'], tiles.append (next ▸ tiles'), ?_⟩
        rw [List.count_append, ← Nat.add_assoc, ← next]
        exact leaves'.after _

end TypeDescription
