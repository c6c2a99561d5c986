import Mathlib.Data.List.Basic
import TypeDescription.Token.Scan
import TypeDescription.Proofs.Spellings

/-!
What a scan can find. A token comes from one rule of the table of lexemes or from an enclosure, so
what holds of every answer of a rule holds of every token of a source. In particular the text of a
symbol is known from its kind, wherever it was found.
-/

namespace TypeDescription

/-! ## Rules -/

/-- A character that a search takes by itself is no escape. -/
theorem ne_escape {c : Char} {rest : List Char} (noEnd : c = '\\' → rest = [] → False)
    (noCover : ∀ (d : Char) (ds : List Char), c = '\\' → rest = d :: ds → False) : c ≠ '\\' := by
  rintro rfl
  cases rest with
  | nil => exact noEnd rfl rfl
  | cons d ds => exact noCover d ds rfl rfl

namespace Lexeme

/-- An answer comes from a rule of the table. -/
theorem rule_of_first {s : List Char} {kind : TokenKind} {found : Match}
    (answer : first? s = some (kind, found)) :
    ∃ rule, (kind, rule) ∈ rules ∧ rule s = some found := by
  obtain ⟨⟨kind', rule⟩, member, answered⟩ := List.exists_of_findSome?_eq_some answer
  obtain ⟨found', ruled, same⟩ := Option.map_eq_some_iff.mp answered
  obtain ⟨rfl, rfl⟩ := Prod.mk.inj same
  exact ⟨rule, member, ruled⟩

/-- Where a rule answers, none of the rules of other kinds before it does. -/
theorem silent_before_first {s : List Char} {kind : TokenKind} {found : Match}
    {before after : List (TokenKind × (List Char → Option Match))}
    (table : rules = before ++ after) (other : ∀ entry ∈ before, entry.1 ≠ kind)
    (answer : first? s = some (kind, found)) : ∀ entry ∈ before, entry.2 s = none := by
  rw [first?, table, List.findSome?_append, Option.or_eq_some_iff] at answer
  rcases answer with earlier | ⟨silent, -⟩
  · obtain ⟨⟨kind', rule⟩, member, answered⟩ := List.exists_of_findSome?_eq_some earlier
    obtain ⟨_, -, same⟩ := Option.map_eq_some_iff.mp answered
    exact absurd (congrArg Prod.fst same) (other _ member)
  · intro entry member
    exact Option.map_eq_none_iff.mp (List.findSome?_eq_none_iff.mp silent entry member)

/-- A prefix that is given is found exactly where it stands. -/
theorem literal_eq_some_iff {spelled s text after : List Char} :
    literal spelled s = some (text, after) ↔ text = spelled ∧ s = spelled ++ after := by
  rw [literal, Option.map_eq_some_iff]
  constructor
  · rintro ⟨rest, found, same⟩
    obtain ⟨rfl, rfl⟩ := Prod.mk.inj same
    exact ⟨rfl, (List.isPrefixOf?_eq_some_iff_append_eq.mp found).symm⟩
  · rintro ⟨rfl, shape⟩
    exact ⟨after, List.isPrefixOf?_eq_some_iff_append_eq.mpr shape.symm, rfl⟩

/-- The rules for symbols all look for the text that their kind prescribes. -/
private theorem rule_of_symbol :
    ∀ entry ∈ rules, entry.1.isSymbol = true → entry.2 = literal entry.1.description.toList := by
  simp [rules, TokenKind.isSymbol, TokenKind.description]

private theorem rule_of_operator :
    ∀ entry ∈ rules, entry.1 = .definitionOperator →
      entry.2 = literal [':', '='] ∨ entry.2 = literal [':', '<'] := by
  simp [rules]

/-- The text of a symbol is known from its kind, and so is that of an operator, in its old spelling
or not. -/
theorem standard_of_first {s text after : List Char} {kind : TokenKind} {line lastLine : Nat}
    (answer : first? s = some (kind, text, after)) :
    Token.Standard { kind, text := String.ofList text, line, lastLine } := by
  obtain ⟨rule, member, ruled⟩ := rule_of_first answer
  refine ⟨fun fixed => ?_, fun same => ?_⟩
  · have shape := rule_of_symbol _ member fixed
    simp only at shape
    rw [shape] at ruled
    rw [(literal_eq_some_iff.mp ruled).1]
    exact String.ofList_toList
  · rcases rule_of_operator _ member same with shape | shape
    · simp only at shape
      rw [shape] at ruled
      exact .inl (by rw [(literal_eq_some_iff.mp ruled).1])
    · simp only at shape
      rw [shape] at ruled
      exact .inr (by rw [(literal_eq_some_iff.mp ruled).1])

end Lexeme

/-! ## Tokens -/

/-- An enclosure starts with its opening delimiter. -/
theorem opening_eq_some {s body : List Char} {enclosure : Enclosure}
    (opened : Enclosure.opening? s = some (enclosure, body)) : s = enclosure.opener ++ body := by
  rw [Enclosure.opening?] at opened
  split at opened
  · next rest found =>
    cases opened
    exact (List.isPrefixOf?_eq_some_iff_append_eq.mp found).symm
  · obtain ⟨rest, found, same⟩ := Option.map_eq_some_iff.mp opened
    cases same
    exact (List.isPrefixOf?_eq_some_iff_append_eq.mp found).symm

section Origin

variable {P : Token → Prop} {I : Option Unclosed → Prop}

/-- What holds of the tokens that a remainder of a line can start with holds of all its tokens. -/
theorem walk_tokens_forall {number : Nat} {line rest : List Char} {covered : Nat}
    (enclosed : ∀ (enclosure : Enclosure) body text after, body <:+ rest →
      upToCloser enclosure.closer body = some (text, after) →
      P (Unclosed.token { enclosure, line := number, text := [] } text number))
    (lexeme : ∀ s kind text after, s <:+ rest → Enclosure.opening? s = none →
      Lexeme.first? s = some (kind, text, after) →
      P { kind, text := String.ofList text, line := number, lastLine := number }) :
    ∀ t ∈ (walk number line rest covered).tokens, P t := by
  fun_induction walk number line rest covered with
  | case1 => exact fun t member => nomatch member
  | case2 c rest covered ih | case3 c rest white ih =>
    have shorter := List.suffix_cons c rest
    exact ih (fun enclosure body text after tail => enclosed enclosure body text after
        (tail.trans shorter))
      (fun s kind text after tail => lexeme s kind text after (tail.trans shorter))
  | case4 c rest white enclosure body opened unclosed text after closed ih =>
    have shorter := List.suffix_cons c rest
    have inside : body <:+ c :: rest := ⟨enclosure.opener, (opening_eq_some opened).symm⟩
    intro t member
    rcases List.mem_cons.mp member with rfl | later
    · exact enclosed enclosure body text after inside closed
    · exact ih (fun enclosure body text after tail => enclosed enclosure body text after
          (tail.trans shorter))
        (fun s kind text after tail => lexeme s kind text after (tail.trans shorter)) t later
  | case5 c rest white enclosure body opened unclosed still => exact fun t member => nomatch member
  | case6 c rest white opened kind text after found ih =>
    have shorter := List.suffix_cons c rest
    intro t member
    rcases List.mem_cons.mp member with rfl | later
    · exact lexeme (c :: rest) kind text after List.suffix_rfl opened found
    · exact ih (fun enclosure body text after tail => enclosed enclosure body text after
          (tail.trans shorter))
        (fun s kind text after tail => lexeme s kind text after (tail.trans shorter)) t later
  | case7 c rest white opened found => exact fun t member => nomatch member

/-- What each line adds, given what the lines before it leave unclosed, holds of all tokens. -/
theorem scan_lines_forall {failure : Option String} {read : Nat} {unclosed : Option Unclosed}
    {lines : List (List Char)}
    (found : ∀ number, ∀ line ∈ lines, ∀ unclosed, I unclosed →
      ∀ t ∈ (scanLine number line unclosed).tokens, P t)
    (kept : ∀ number, ∀ line ∈ lines.dropLast, ∀ unclosed left, I unclosed →
      (scanLine number line unclosed).ending = .ok left → I left)
    (start : I unclosed) : ∀ t ∈ (scanLines failure read unclosed lines).tokens, P t := by
  induction lines generalizing read unclosed with
  | nil => exact fun t member => nomatch member
  | cons line lines ih =>
    have first := found (read + 1) line (List.mem_cons_self ..) unclosed start
    rw [scanLines]
    cases ending : (scanLine (read + 1) line unclosed).ending with
    | error fault => exact first
    | ok left =>
      intro t member
      rcases List.mem_append.mp member with now | later
      · exact first t now
      · cases lines with
        | nil => cases later
        | cons next lines =>
          have keeps := kept (read + 1) line (by simp) unclosed left start ending
          exact ih (fun number line member => found number line (List.mem_cons_of_mem _ member))
            (fun number line member => kept number line (List.mem_cons_of_mem _ member)) keeps t
            later

/-- What holds of every answer of a rule and of every enclosure holds of all tokens of a source. -/
theorem scan_tokens_forall (source : Source)
    (enclosed : ∀ (unclosed : Unclosed) text lastLine, P (unclosed.token text lastLine))
    (lexeme : ∀ s kind text after line, Enclosure.opening? s = none →
      Lexeme.first? s = some (kind, text, after) →
      P { kind, text := String.ofList text, line, lastLine := line }) :
    ∀ t ∈ source.scan.tokens, P t := by
  have line_forall : ∀ number line rest covered, ∀ t ∈ (walk number line rest covered).tokens, P t :=
    fun number line rest covered => walk_tokens_forall
      (fun enclosure body text after _ _ => enclosed _ text number)
      (fun s kind text after _ opened answer => lexeme s kind text after number opened answer)
  refine scan_lines_forall (I := fun _ => True) (fun number line _ unclosed _ => ?_)
    (fun _ _ _ _ _ _ _ => trivial) trivial
  cases unclosed with
  | none => exact line_forall number line line 0
  | some unclosed =>
    rw [scanLine]
    split
    · next text after closed =>
      intro t member
      rcases List.mem_cons.mp member with rfl | later
      · exact enclosed unclosed text number
      · exact line_forall _ _ _ _ t later
    · exact fun t member => nomatch member

end Origin

/-- The text of every symbol and operator of a source is known from its kind. -/
theorem scan_tokens_standard (source : Source) : ∀ t ∈ source.scan.tokens, t.Standard := by
  refine scan_tokens_forall source (fun unclosed text lastLine => ?_)
    (fun s kind text after line _ answer => Lexeme.standard_of_first answer)
  obtain ⟨enclosure, line, before⟩ := unclosed
  cases enclosure <;> exact ⟨fun fixed => (nomatch fixed), fun same => (nomatch same)⟩

end TypeDescription
