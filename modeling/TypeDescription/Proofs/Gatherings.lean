import TypeDescription.Proofs.Scanning

/-!
Docstrings and comments, line by line. A complete line hands on what follows the last opening
delimiter on it, or adds all of itself to what the lines before it left unclosed; so the text that
has been gathered ends with a line feed and holds no closing delimiter. The line that closes it adds
what stands before the delimiter.
-/

namespace TypeDescription

/-- What holds of the texts that end on a line, and of the lexemes on it, holds of all its tokens. -/
theorem scan_line_tokens_forall {P : Token → Prop} {number : Nat} {line : List Char}
    {unclosed : Option Unclosed}
    (enclosed : ∀ u text, Unclosed.text u = [] ∨ u ∈ unclosed → text <:+: line →
      Encloses u.enclosure.closer text → P (u.token text number))
    (lexeme : ∀ s kind text after, s <:+ line → Enclosure.opening? s = none →
      Lexeme.first? s = some (kind, text, after) →
      P { kind, text := String.ofList text, line := number, lastLine := number }) :
    ∀ t ∈ (scanLine number line unclosed).tokens, P t := by
  have closes {body text after : List Char} (u : Unclosed) (known : u.text = [] ∨ u ∈ unclosed)
      (tail : body <:+ line) (closed : upToCloser u.enclosure.closer body = some (text, after)) :
      P (u.token text number) := by
    obtain ⟨shape, encloses⟩ := enclosed_eq_some closed
    have start : text <:+: body := ⟨[], u.enclosure.closer ++ after, by rw [shape]; simp⟩
    exact enclosed u text known (start.trans tail.isInfix) encloses
  have walked (covered : Nat) : ∀ t ∈ (walk number line line covered).tokens, P t := by
    apply walk_tokens_forall
    · intro enclosure body text after tail closed
      exact closes { enclosure, line := number, text := [] } (.inl rfl) tail closed
    · exact lexeme
  cases unclosed with
  | none => exact walked 0
  | some u =>
    rw [scanLine]
    split
    · next text after closed =>
      exact List.forall_mem_cons.mpr ⟨closes u (.inr rfl) List.suffix_rfl closed, walked _⟩
    · exact fun t member => absurd member List.not_mem_nil

/-- What a line leaves unclosed is all that follows the opening delimiter. -/
theorem walk_leaves {number : Nat} {line rest : List Char} {covered : Nat} {left : Unclosed}
    (ending : (walk number line rest covered).ending = .ok (some left)) :
    left.enclosure.opener ++ left.text <:+ rest ∧ upToCloser left.enclosure.closer left.text = none := by
  fun_induction walk number line rest covered with
  | case1 => cases ending
  | case2 c rest covered ih | case3 c rest white ih =>
    obtain ⟨tail, absent⟩ := ih ending
    exact ⟨tail.trans (List.suffix_cons c rest), absent⟩
  | case4 c rest white enclosure body opened unclosed text after closed ih =>
    obtain ⟨tail, absent⟩ := ih ending
    exact ⟨tail.trans (List.suffix_cons c rest), absent⟩
  | case5 c rest white enclosure body opened unclosed still =>
    cases ending
    exact ⟨(opening_eq_some opened) ▸ List.suffix_rfl, still⟩
  | case6 c rest white opened kind text after found ih =>
    obtain ⟨tail, absent⟩ := ih ending
    exact ⟨tail.trans (List.suffix_cons c rest), absent⟩
  | case7 => cases ending

section Lines

variable {number : Nat} {line : List Char} {unclosed left : Option Unclosed}

/-- What a complete line leaves unclosed is a part of the line up to its end, after what was
unclosed before, or after nothing. -/
theorem scan_line_leaves (ends : line.getLast? = some '\n')
    (ending : (scanLine number line unclosed).ending = .ok left) :
    ∀ u ∈ left, ∃ before body, u.text = before ++ body ∧
      (before = [] ∨ { u with text := before } ∈ unclosed) ∧ body <:+ line ∧
      body.getLast? = some '\n' ∧ upToCloser u.enclosure.closer body = none := by
  have walked (covered : Nat) (ending : (walk number line line covered).ending = .ok left) :
      ∀ u ∈ left, ∃ before body, u.text = before ++ body ∧
        (before = [] ∨ { u with text := before } ∈ unclosed) ∧ body <:+ line ∧
        body.getLast? = some '\n' ∧ upToCloser u.enclosure.closer body = none := by
    rintro u rfl
    obtain ⟨tail, absent⟩ := walk_leaves ending
    have opener : u.enclosure.opener.getLast? ≠ some '\n' ∧ u.enclosure.opener ≠ [] := by
      cases u.enclosure <;> decide
    have last : u.text.getLast? = some '\n' := by
      obtain ⟨before, rfl⟩ := tail
      by_cases none : u.text = []
      · rw [none, List.append_nil, List.getLast?_append_of_ne_nil _ opener.2] at ends
        exact absurd ends opener.1
      · rwa [← List.append_assoc, List.getLast?_append_of_ne_nil _ none] at ends
    exact ⟨[], u.text, rfl, .inl rfl, (List.suffix_append ..).trans tail, last, absent⟩
  cases unclosed with
  | none => exact walked 0 ending
  | some v =>
    rw [scanLine] at ending
    split at ending
    · exact walked _ ending
    · next absent =>
      cases ending
      rintro u ⟨⟩
      exact ⟨v.text, line, rfl, .inr rfl, List.suffix_rfl, ends, absent⟩

/-- What is gathered holds no closing delimiter. -/
theorem scan_line_stays_open (ends : line.getLast? = some '\n')
    (ending : (scanLine number line unclosed).ending = .ok left)
    (stays : ∀ u ∈ unclosed, StaysOpen u.enclosure.closer u.text) :
    ∀ u ∈ left, StaysOpen u.enclosure.closer u.text := by
  intro u held
  obtain ⟨before, body, shape, known, -, last, absent⟩ := scan_line_leaves ends ending u held
  have added := stays_open_of_line (plain_closer u.enclosure).2.1 last absent
  rw [shape]
  rcases known with rfl | known
  · exact added
  · exact (stays _ known).append added

end Lines

/-! ## Enclosed tokens -/

/-- If the token is a docstring or a comment, its text ends at its closing delimiter, wherever it is
written. -/
def Token.IsEnclosed (t : Token) : Prop :=
  ∀ enclosure : Enclosure, t.kind = enclosure.kind → Encloses enclosure.closer t.text.toList

theorem is_enclosed_of_closed (u : Unclosed) {text : List Char}
    (stays : StaysOpen u.enclosure.closer u.text) (encloses : Encloses u.enclosure.closer text)
    (lastLine : Nat) : (u.token text lastLine).IsEnclosed := by
  intro enclosure same
  have only : enclosure = u.enclosure := by
    obtain ⟨other, line, before⟩ := u
    cases enclosure <;> cases other <;> first | rfl | cases same
  subst only
  rw [Unclosed.token, String.toList_ofList]
  exact stays.encloses encloses

private theorem no_enclosure_rule :
    ∀ entry ∈ Lexeme.rules, ∀ enclosure : Enclosure, entry.1 ≠ enclosure.kind := by
  intro entry member enclosure
  cases enclosure <;> revert entry <;> decide

theorem lexeme_ne_enclosure {s text after : List Char} {kind : TokenKind}
    (answer : Lexeme.first? s = some (kind, text, after)) (enclosure : Enclosure) : kind ≠ enclosure.kind := by
  obtain ⟨rule, member, -⟩ := Lexeme.rule_of_first answer
  exact no_enclosure_rule _ member enclosure

/-- Every docstring and comment is enclosed, however many lines it is gathered from. -/
theorem scan_tokens_enclosed {source : Source}
    (ends : ∀ line ∈ source.lines.dropLast, line.getLast? = some '\n') :
    ∀ t ∈ source.scan.tokens, t.IsEnclosed := by
  refine scan_lines_forall (I := fun unclosed => ∀ u ∈ unclosed, StaysOpen u.enclosure.closer u.text)
    ?_ ?_ fun _ held => nomatch held
  · intro number line member unclosed stays
    apply scan_line_tokens_forall
    · intro u text known inside encloses
      have open' : StaysOpen u.enclosure.closer u.text := by
        rcases known with start | known
        · rw [start]
          exact fun more => by simp
        · exact stays u known
      exact is_enclosed_of_closed u open' encloses number
    · intro s kind text after tail opened answer enclosure same
      exact absurd same (lexeme_ne_enclosure answer enclosure)
  · intro number line member unclosed left stays ending
    exact scan_line_stays_open (ends line member) ending stays

end TypeDescription
