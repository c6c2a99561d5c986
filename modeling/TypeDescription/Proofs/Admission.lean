import TypeDescription.Proofs.Lexemes

/-!
What the text of a token can be. Every rule of the table of lexemes restricts the texts it answers
with, and what it has taken is the written form of the token. The restrictions speak of the text
alone, so they are what has to be known to find the same token again somewhere else.
-/

namespace TypeDescription

namespace Lexeme

theorem dark_of_symbol_char {c : Char} (here : isSymbolChar c = true) :
    Unicode.isWhiteSpace c = false := by
  rw [isSymbolChar, Bool.and_eq_true, Bool.not_eq_true'] at here
  exact here.1

/-- One or more symbol characters. -/
structure IsSymbol (text : List Char) : Prop where
  nonempty : text ≠ []
  all : ∀ c ∈ text, isSymbolChar c = true

theorem is_symbol_of_all {text : List Char} (nonempty : text ≠ [])
    (all : text.all isSymbolChar = true) : IsSymbol text :=
  ⟨nonempty, List.all_eq_true.mp all⟩

/-- Whatever follows, the text ends where this closing character follows it. -/
def ClosedBy (closer : Char) (text : List Char) : Prop :=
  ∀ after, upTo closer (text ++ closer :: after) = some (text, after)

/-- A second field of an affix pattern, whatever follows its parenthesis. -/
def IsField (text : List Char) : Prop :=
  text ≠ [] ∧ ∀ after, fieldChars (text ++ ')' :: after) = (text, ')' :: after)

/-- Two fields with white space between them. -/
def IsPattern (text : List Char) : Prop :=
  ∃ first gap second, text = first ++ gap ++ second ∧ first ≠ [] ∧ ' ' ∉ first ∧ gap ≠ [] ∧
    (∀ c ∈ gap, Unicode.isWhiteSpace c = true) ∧ IsField second

/-! ## Rules one by one -/

theorem symbol_eq_some {s text after : List Char} (answer : symbol s = some (text, after)) :
    IsSymbol text ∧ s = text ++ after := by
  rw [symbol] at answer
  split at answer
  · cases answer
  · next nonempty =>
    cases answer
    exact ⟨⟨nonempty, List.all_eq_true.mp List.all_takeWhile⟩,
      (List.takeWhile_append_dropWhile).symm⟩

theorem up_to_cons {closer c : Char} (plain : c ≠ '\\') (rest : List Char) :
    upTo closer (c :: rest) =
      if c = closer then some ([], rest)
      else (upTo closer rest).map fun (text, after) => (c :: text, after) := by
  rw [upTo]
  · exact fun same _ => plain same
  · exact fun _ _ same _ => plain same

/-- A text is found up to its closing character, and up to wherever else that character stands
behind it. -/
theorem up_to_eq_some {closer : Char} {s text after : List Char} (plainCloser : closer ≠ '\\')
    (answer : upTo closer s = some (text, after)) :
    ClosedBy closer text ∧ s = text ++ closer :: after := by
  fun_induction upTo closer s generalizing text with
  | case1 => cases answer
  | case2 => cases answer
  | case3 => cases answer
  | case4 c rest plain ih =>
    obtain ⟨⟨text', after'⟩, found, same⟩ := Option.map_eq_some_iff.mp answer
    cases same
    obtain ⟨closed, rfl⟩ := ih found
    refine ⟨fun more => ?_, rfl⟩
    rw [List.cons_append, List.cons_append, upTo, if_neg plain, closed more]
    rfl
  | case5 rest =>
    cases answer
    refine ⟨fun more => ?_, rfl⟩
    rw [List.nil_append, up_to_cons plainCloser, if_pos rfl]
  | case6 c rest noEnd noCover other ih =>
    obtain ⟨⟨text', after'⟩, found, same⟩ := Option.map_eq_some_iff.mp answer
    cases same
    obtain ⟨closed, rfl⟩ := ih found
    have plain := ne_escape noEnd noCover
    refine ⟨fun more => ?_, rfl⟩
    rw [List.cons_append, up_to_cons plain, if_neg other, closed more]
    rfl

theorem field_chars_cons {c : Char} (plain : c ≠ '\\') (rest : List Char) :
    fieldChars (c :: rest) =
      if c = ' ' ∨ c = ')' then ([], c :: rest)
      else (c :: (fieldChars rest).1, (fieldChars rest).2) := by
  rw [fieldChars]
  · exact fun same _ => plain same
  · exact fun _ _ same _ => plain same

theorem field_chars_eq {s text after : List Char} (found : fieldChars s = (text, ')' :: after)) :
    (∀ more, fieldChars (text ++ ')' :: more) = (text, ')' :: more)) ∧ s = text ++ ')' :: after := by
  fun_induction fieldChars s generalizing text with
  | case1 => cases found
  | case2 => cases found
  | case3 => cases found
  | case4 c rest plain ih =>
    obtain ⟨same, ends⟩ := Prod.mk.inj found
    subst same
    obtain ⟨field, shape⟩ := ih (Prod.ext rfl ends)
    refine ⟨fun more => ?_, by rw [List.cons_append, List.cons_append, ← shape]⟩
    rw [List.cons_append, List.cons_append, fieldChars, if_neg plain, field more]
  | case5 c rest noEnd noCover stop =>
    obtain ⟨rfl, same⟩ := Prod.mk.inj found
    obtain ⟨rfl, rfl⟩ := List.cons.inj same
    refine ⟨fun more => ?_, rfl⟩
    rw [List.nil_append, field_chars_cons (by simp), if_pos (.inr rfl)]
  | case6 c rest noEnd noCover go ih =>
    obtain ⟨same, ends⟩ := Prod.mk.inj found
    subst same
    obtain ⟨field, shape⟩ := ih (Prod.ext rfl ends)
    have plain := ne_escape noEnd noCover
    refine ⟨fun more => ?_, by rw [List.cons_append, ← shape]⟩
    rw [List.cons_append, field_chars_cons plain, if_neg go, field more]

theorem second_field_eq_some {s text after : List Char}
    (answer : secondField s = some (text, after)) : IsField text ∧ s = text ++ ')' :: after := by
  rw [secondField] at answer
  split at answer
  · next c text' after' found =>
    cases answer
    obtain ⟨field, shape⟩ := field_chars_eq found
    exact ⟨⟨List.cons_ne_nil _ _, field⟩, shape⟩
  · cases answer

/-- What is answered for a count is the first answer from above. -/
theorem longest_eq_some {answer : Nat → Option α} {n : Nat} {found : α}
    (answered : longest answer n = some found) : ∃ k, 0 < k ∧ k ≤ n ∧ answer k = some found := by
  induction n with
  | zero => cases answered
  | succ n ih =>
    rw [longest] at answered
    cases now : answer (n + 1) with
    | some found' =>
      rw [now] at answered
      cases answered
      exact ⟨n + 1, Nat.succ_pos n, Nat.le_refl _, now⟩
    | none =>
      rw [now] at answered
      obtain ⟨k, positive, bound, here⟩ := ih answered
      exact ⟨k, positive, Nat.le_succ_of_le bound, here⟩

theorem keeping_eq_some {rule : List Char → Option Match} {s text after : List Char} {n : Nat}
    (answer : keeping rule s n = some (text, after)) :
    ∃ text', rule (s.drop n) = some (text', after) ∧ text = s.take n ++ text' := by
  obtain ⟨⟨text', after'⟩, found, same⟩ := Option.map_eq_some_iff.mp answer
  cases same
  exact ⟨text', found, rfl⟩

private theorem take_of_le_take_while {p : α → Bool} {s : List α} {n : Nat}
    (bound : n ≤ (s.takeWhile p).length) : ∀ a ∈ s.take n, p a = true := by
  intro a member
  have shape : s.take n = (s.takeWhile p).take n := calc
    s.take n = (s.takeWhile p ++ s.dropWhile p).take n := by rw [List.takeWhile_append_dropWhile]
    _ = (s.takeWhile p).take n := List.take_append_of_le_length bound
  rw [shape] at member
  exact (List.all_eq_true.mp List.all_takeWhile) a (List.mem_of_mem_take member)

theorem affix_pattern_eq_some {s text after : List Char}
    (answer : affixPattern s = some (text, after)) :
    IsPattern text ∧ s = '(' :: text ++ ')' :: after := by
  rw [affixPattern.eq_def] at answer
  split at answer
  · next rest =>
    obtain ⟨n, positive, bound, kept⟩ := longest_eq_some answer
    obtain ⟨later, gapped, rfl⟩ := keeping_eq_some kept
    rw [gapAndField] at gapped
    obtain ⟨m, positive', bound', kept'⟩ := longest_eq_some gapped
    obtain ⟨second, last, rfl⟩ := keeping_eq_some kept'
    obtain ⟨field, shape⟩ := second_field_eq_some last
    have first := take_of_le_take_while bound
    have gap := take_of_le_take_while bound'
    have inside : n ≤ rest.length := Nat.le_trans bound (List.takeWhile_prefix _).length_le
    have inside' : m ≤ (rest.drop n).length := Nat.le_trans bound' (List.takeWhile_prefix _).length_le
    refine ⟨⟨rest.take n, (rest.drop n).take m, second, by rw [List.append_assoc], ?_, ?_, ?_, gap,
      field⟩, ?_⟩
    · exact List.ne_nil_of_length_pos (by rw [List.length_take]; omega)
    · exact fun member => by simpa using first ' ' member
    · exact List.ne_nil_of_length_pos (by rw [List.length_take]; omega)
    · rw [List.cons_append, List.append_assoc, List.append_assoc, ← shape, List.take_append_drop,
        List.take_append_drop]
  · cases answer

theorem between_eq_some {opener closer : Char} {s text after : List Char}
    (plainCloser : closer ≠ '\\') (answer : between opener closer s = some (text, after)) :
    ClosedBy closer text ∧ s = opener :: text ++ closer :: after := by
  rw [between.eq_def] at answer
  split at answer
  · next c rest =>
    by_cases same : c = opener
    · rw [if_pos same] at answer
      obtain ⟨closed, rfl⟩ := up_to_eq_some plainCloser answer
      exact ⟨closed, by rw [same]; rfl⟩
    · rw [if_neg same] at answer
      cases answer
  · cases answer

theorem quoted_symbol_eq_some {s text after : List Char}
    (answer : quotedSymbol s = some (text, after)) : IsSymbol text ∧ s = '\'' :: text ++ after := by
  rw [quotedSymbol.eq_def] at answer
  split at answer
  · obtain ⟨symbol, rfl⟩ := symbol_eq_some answer
    exact ⟨symbol, rfl⟩
  · cases answer

theorem coreference_eq_some {s text after : List Char}
    (answer : coreference s = some (text, after)) :
    ∃ tag, text = '#' :: tag ∧ IsSymbol tag ∧ s = '#' :: tag ++ after := by
  rw [coreference.eq_def] at answer
  split at answer
  · obtain ⟨⟨tag, after'⟩, found, same⟩ := Option.map_eq_some_iff.mp answer
    cases same
    obtain ⟨symbol, rfl⟩ := symbol_eq_some found
    exact ⟨tag, rfl, symbol, rfl⟩
  · cases answer

theorem literal_eq_none_iff {spelled s : List Char} : literal spelled s = none ↔ ¬ spelled <+: s := by
  rw [literal, Option.map_eq_none_iff, Option.eq_none_iff_forall_ne_some]
  constructor
  · rintro absent ⟨rest, shape⟩
    exact absent rest (List.isPrefixOf?_eq_some_iff_append_eq.mpr shape)
  · intro apart rest found
    exact apart ⟨rest, List.isPrefixOf?_eq_some_iff_append_eq.mp found⟩

/-- The text starts with the marker of a side. -/
def Marked (text : List Char) : Prop := ∃ side : AffixSide, '%' :: side.word.toList <+: text

theorem affix_marker_eq_none_iff {s : List Char} : affixMarker s = none ↔ ¬ Marked s := by
  have sides : Marked s ↔ ['%', 'p', 'r', 'e', 'f', 'i', 'x'] <+: s ∨
      ['%', 's', 'u', 'f', 'f', 'i', 'x'] <+: s := by
    constructor
    · rintro ⟨side, marked⟩
      cases side
      · exact .inl marked
      · exact .inr marked
    · rintro (marked | marked)
      · exact ⟨.front, marked⟩
      · exact ⟨.back, marked⟩
  rw [sides]
  fun_cases affixMarker s with
  | case1 rest found prefixed =>
    obtain ⟨-, rfl⟩ := literal_eq_some_iff.mp prefixed
    simp
  | case2 rest absent =>
    have front := literal_eq_none_iff.mp absent
    simp [literal_eq_none_iff, front]
  | case3 =>
    rename_i other
    cases s with
    | nil => simp
    | cons c rest =>
      have differ : '%' ≠ c := fun same => other rest (same ▸ rfl)
      simp [differ]

end Lexeme

open Lexeme

/-! ## Kinds -/

/-- What is known of the text of a token of this kind. -/
def TokenKind.Admits (kind : TokenKind) (text : List Char) : Prop :=
  match kind with
  | .string => ClosedBy '"' text
  | .quotedSymbol => IsSymbol text
  | .regex => ClosedBy '$' text
  -- A number sign with a bar after it would open a comment.
  | .coreference => ∃ tag, text = '#' :: tag ∧ IsSymbol tag ∧ tag.head? ≠ some '|'
  | .affixPattern => IsPattern text
  | .identifier => IsSymbol text ∧ ¬ Marked text
  | _ => True

theorem rule_of_kind :
    ∀ entry ∈ rules,
      (entry.1 = .string → entry.2 = between '"' '"') ∧
      (entry.1 = .quotedSymbol → entry.2 = quotedSymbol) ∧
      (entry.1 = .regex → entry.2 = between '^' '$') ∧
      (entry.1 = .coreference → entry.2 = coreference) ∧
      (entry.1 = .affixPattern → entry.2 = affixPattern) ∧
      (entry.1 = .identifier → entry.2 = symbol) := by
  simp [rules]

theorem admits_of_first {s text after : List Char} {kind : TokenKind}
    (closed : Enclosure.opening? s = none) (answer : first? s = some (kind, text, after)) :
    kind.Admits text := by
  obtain ⟨rule, member, ruled⟩ := rule_of_first answer
  obtain ⟨string, quoted, regex, coref, pattern, name⟩ := rule_of_kind _ member
  cases kind with
  | string =>
    obtain rfl := string rfl
    exact (between_eq_some (by simp) ruled).1
  | quotedSymbol =>
    obtain rfl := quoted rfl
    exact (quoted_symbol_eq_some ruled).1
  | regex =>
    obtain rfl := regex rfl
    exact (between_eq_some (by simp) ruled).1
  | coreference =>
    obtain rfl := coref rfl
    obtain ⟨tag, rfl, symbol, rfl⟩ := coreference_eq_some ruled
    refine ⟨tag, rfl, symbol, fun bar => ?_⟩
    cases tag with
    | nil => cases bar
    | cons c tag =>
      cases bar
      cases closed
  | affixPattern =>
    obtain rfl := pattern rfl
    exact (affix_pattern_eq_some ruled).1
  | identifier =>
    obtain rfl := name rfl
    obtain ⟨symbol, rfl⟩ := symbol_eq_some ruled
    have table : rules = rules.dropLast ++ [(.identifier, Lexeme.symbol)] := rfl
    have silent : affixMarker (text ++ after) = none :=
      silent_before_first table (by simp [rules]) answer (.affixMarker, affixMarker) (by simp [rules])
    refine ⟨symbol, fun marked => affix_marker_eq_none_iff.mp silent ?_⟩
    obtain ⟨side, starts⟩ := marked
    exact ⟨side, starts.trans (List.prefix_append text after)⟩
  | _ => trivial

theorem scan_tokens_admitted (source : Source) :
    ∀ t ∈ source.scan.tokens, t.kind.Admits t.text.toList := by
  refine scan_tokens_forall source (fun unclosed text lastLine => ?_)
    (fun s kind text after line opened answer => ?_)
  · obtain ⟨enclosure, line, before⟩ := unclosed
    cases enclosure <;> trivial
  · rw [String.toList_ofList]
    exact admits_of_first opened answer

end TypeDescription
