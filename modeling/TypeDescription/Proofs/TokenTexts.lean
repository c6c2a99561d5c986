import TypeDescription.Proofs.Gatherings
import TypeDescription.Proofs.Writable

/-!
The texts of the tokens of a source. A token of one line has no line feed inside it; a docstring
is gathered line by line, and stays open until its closing delimiter. So unless a quoted symbol has
a marker, two carriage returns stand before a line feed or an affix has unusual white space, every
token can be written again.
-/

namespace TypeDescription

open Lexeme

/-! ## Lines -/

/-- A line of a text: a line feed can only be at its end, without a carriage return before it. -/
structure IsLine (line : List Char) : Prop where
  inner : '\n' ∉ line.dropLast
  unreturned : Unreturned line

section Texts

variable {text : List Char}

private theorem pieces_inner {piece : List Char} (cut : piece ∈ splitAfter (· == '\n') text) :
    '\n' ∉ piece.dropLast := by
  intro feed
  have plain := split_after_inner cut _ feed
  cases plain

theorem text_lines_inner : ∀ line ∈ Source.textLines text, '\n' ∉ line.dropLast := by
  intro line member
  obtain ⟨piece, cut, rfl⟩ := List.mem_map.mp member
  exact drop_return_inner (pieces_inner cut)

theorem text_lines_is_line (single : ¬ ['\r', '\r', '\n'] <:+: text) :
    ∀ line ∈ Source.textLines text, IsLine line := by
  intro line member
  refine ⟨text_lines_inner line member, ?_⟩
  obtain ⟨piece, cut, rfl⟩ := List.mem_map.mp member
  exact drop_return_unreturned (pieces_inner cut) fun found => single (found.trans (line_within cut))

end Texts

/-! ## Tokens of a line -/

/-- If the token is a string or a regular expression, it is on one line. -/
def Token.OnOneLine (t : Token) : Prop := t.kind = .string ∨ t.kind = .regex → '\n' ∉ t.text.toList

theorem on_one_line_of_enclosed (unclosed : Unclosed) (text : List Char) (lastLine : Nat) :
    (unclosed.token text lastLine).OnOneLine := by
  obtain ⟨enclosure, line, before⟩ := unclosed
  rintro kind
  cases enclosure <;> rcases kind with kind | kind <;> cases kind

theorem on_one_line_of_first {line s text after : List Char} {kind : TokenKind}
    (inner : '\n' ∉ line.dropLast) (tail : s <:+ line) (answer : first? s = some (kind, text, after))
    (number : Nat) :
    Token.OnOneLine { kind, text := String.ofList text, line := number, lastLine := number } := by
  obtain ⟨rule, member, ruled⟩ := rule_of_first answer
  obtain ⟨string, -, regex, -, -, -⟩ := rule_of_kind _ member
  have within {opener closer : Char} (plain : closer ≠ '\\') (same : rule = between opener closer) :
      '\n' ∉ text := by
    subst same
    obtain ⟨-, rfl⟩ := between_eq_some plain ruled
    exact plain_of_suffix inner [opener] tail
  intro same
  rw [String.toList_ofList]
  rcases same with same | same
  · exact within (by decide) (string same)
  · exact within (by decide) (regex same)

theorem scan_line_on_one_line {line : List Char} (inner : '\n' ∉ line.dropLast) (number : Nat)
    (unclosed : Option Unclosed) : ∀ t ∈ (scanLine number line unclosed).tokens, t.OnOneLine := by
  apply scan_line_tokens_forall
  · exact fun u text known inside encloses => on_one_line_of_enclosed u text number
  · exact fun s kind text after tail opened answer => on_one_line_of_first inner tail answer number

theorem tokens_on_one_line (text : String) : ∀ t ∈ (Source.ofText text).scan.tokens, t.OnOneLine :=
  scan_lines_forall (I := fun _ => True)
    (fun number line member unclosed _ => scan_line_on_one_line (text_lines_inner line member) number unclosed)
    (fun _ _ _ _ _ _ _ => trivial) trivial

/-! ## Docstrings -/

/-- If the token is a docstring, its text can stand in one. -/
def Token.HasDoc (t : Token) : Prop := t.kind = .docstring → IsDoc t.text

/-- A text that has been gathered so far, up to the end of a line. -/
structure Gathered (unclosed : Unclosed) : Prop where
  stays : StaysOpen unclosed.enclosure.closer unclosed.text
  unreturned : Unreturned unclosed.text
  ends : unclosed.text.getLast? ≠ some '\r'

theorem has_doc_of_enclosed (unclosed : Unclosed) {text : List Char}
    (stays : StaysOpen unclosed.enclosure.closer unclosed.text)
    (unreturned : Unreturned (unclosed.text ++ text))
    (encloses : Encloses unclosed.enclosure.closer text) (lastLine : Nat) :
    (unclosed.token text lastLine).HasDoc := by
  intro kind
  refine ⟨is_enclosed_of_closed unclosed stays encloses lastLine .docstring kind, ?_⟩
  rw [Unclosed.token, String.toList_ofList]
  exact unreturned

theorem scan_line_has_docs {line : List Char} (isLine : IsLine line) (number : Nat)
    {unclosed : Option Unclosed} (gathered : ∀ u ∈ unclosed, Gathered u) :
    ∀ t ∈ (scanLine number line unclosed).tokens, t.HasDoc := by
  apply scan_line_tokens_forall
  · intro u text known inside encloses
    have later : Unreturned text := List.IsChain.infix isLine.unreturned inside
    rcases known with start | known
    · refine has_doc_of_enclosed u ?_ ?_ encloses number
      · rw [start]
        exact fun more => by simp
      · rwa [start]
    · obtain ⟨stays, unreturned, ends⟩ := gathered u known
      exact has_doc_of_enclosed u stays (unreturned.append later (.inl ends)) encloses number
  · exact fun s kind text after tail opened answer same => absurd same (lexeme_ne_enclosure answer .docstring)

theorem scan_line_gathers {line : List Char} (isLine : IsLine line) (ends : line.getLast? = some '\n')
    (number : Nat) {unclosed left : Option Unclosed} (gathered : ∀ u ∈ unclosed, Gathered u)
    (ending : (scanLine number line unclosed).ending = .ok left) : ∀ u ∈ left, Gathered u := by
  intro u held
  have stays := scan_line_stays_open ends ending (fun v known => (gathered v known).stays) u held
  obtain ⟨before, body, shape, known, tail, last, -⟩ := scan_line_leaves ends ending u held
  have added : Unreturned body := List.IsChain.infix isLine.unreturned tail.isInfix
  refine ⟨stays, ?_, ?_⟩
  · rw [shape]
    rcases known with rfl | known
    · exact added
    · obtain ⟨-, unreturned, ends'⟩ := gathered _ known
      exact unreturned.append added (.inl ends')
  · rw [shape, List.getLast?_append, last]
    exact fun same => nomatch same

section Sources

variable {text : String}

theorem tokens_have_docs (single : ¬ ['\r', '\r', '\n'] <:+: text.toList) :
    ∀ t ∈ (Source.ofText text).scan.tokens, t.HasDoc := by
  have lines := text_lines_is_line single
  refine scan_lines_forall (I := fun unclosed => ∀ u ∈ unclosed, Gathered u) ?_ ?_ ?_
  · intro number line member unclosed gathered
    exact scan_line_has_docs (lines line member) number gathered
  · intro number line member unclosed left gathered ending
    have isLine := lines line (List.dropLast_subset _ member)
    exact scan_line_gathers isLine (text_lines_end _ line member) number gathered ending
  · exact fun _ member => nomatch member

/-! ## Affixes -/

/-- A space in the second field of an affix is covered by a backslash. -/
private theorem field_chars_space {s field after : List Char} (found : fieldChars s = (field, after))
    (space : ' ' ∈ field) : ['\\', ' '] <:+: field := by
  fun_induction fieldChars s generalizing field with
  | case1 | case2 | case3 =>
    cases found
    cases space
  | case4 c rest plain ih =>
    obtain ⟨same, rfl⟩ := Prod.mk.inj found
    subst same
    rcases List.mem_cons.mp space with same | space
    · cases same
    · rcases List.mem_cons.mp space with rfl | space
      · exact ⟨[], _, rfl⟩
      · exact List.infix_cons (List.infix_cons (ih rfl space))
  | case5 c rest noEnd noCover stop =>
    cases found
    cases space
  | case6 c rest noEnd noCover go ih =>
    obtain ⟨same, rfl⟩ := Prod.mk.inj found
    subst same
    rcases List.mem_cons.mp space with rfl | space
    · exact absurd (.inl rfl) go
    · exact List.infix_cons (ih rfl space)

/-- Between two words the white space around a text is that around the words. -/
private theorem trim_of_dark {text : List Char} {c d : Char} {before after : List Char}
    (starts : text = c :: after) (ends : text = before ++ [d]) (dark : Unicode.isWhiteSpace c = false)
    (dark' : Unicode.isWhiteSpace d = false) : Unicode.trim text = text := by
  have front : text.dropWhile Unicode.isWhiteSpace = text := by
    rw [starts, List.dropWhile_cons_of_neg (by simp [dark])]
  rw [Unicode.trim, front, Unicode.trimEnd, ends, List.reverse_append, List.reverse_singleton,
    List.singleton_append, List.dropWhile_cons_of_neg (by simp [dark']), List.reverse_cons,
    List.reverse_reverse]

/-- The fields of a pattern are the two words around its white space. -/
theorem affix_fields_of_spaced {first gap second : List Char} (spaced : IsSpaced first second)
    (some : gap ≠ []) (white : ∀ c ∈ gap, Unicode.isWhiteSpace c = true) :
    affixFields (String.ofList (first ++ gap ++ second)) =
      (String.ofList first, String.ofList second) := by
  obtain ⟨nonempty, dark, nonempty', -⟩ := spaced
  have darkFirst : ∀ c ∈ first, (!Unicode.isWhiteSpace c) = true := fun c member => by
    simp [dark c (List.mem_append_left _ member)]
  obtain ⟨c, rest, shape⟩ := List.exists_cons_of_ne_nil nonempty
  obtain ⟨before, d, shape'⟩ := exists_concat_of_ne_nil nonempty'
  obtain ⟨g, gaps, shapeGap⟩ := List.exists_cons_of_ne_nil some
  obtain ⟨e, es, shapeSecond⟩ := List.exists_cons_of_ne_nil nonempty'
  have whiteHere : Unicode.isWhiteSpace g = true := white g (by simp [shapeGap])
  have darkHere : Unicode.isWhiteSpace e = false := dark e (by simp [shapeSecond])
  have trimmed : Unicode.trim (first ++ gap ++ second) = first ++ gap ++ second := by
    have starts : first ++ gap ++ second = c :: (rest ++ gap ++ second) := by simp [shape]
    have ends : first ++ gap ++ second = first ++ gap ++ before ++ [d] := by simp [shape']
    exact trim_of_dark starts ends (dark c (by simp [shape])) (dark d (by simp [shape']))
  have word : (first ++ (gap ++ second)).takeWhile (fun c => !Unicode.isWhiteSpace c) = first := by
    rw [List.takeWhile_append_of_pos darkFirst, shapeGap, List.cons_append,
      List.takeWhile_cons_of_neg (by simp [whiteHere]), List.append_nil]
  have others : (first ++ (gap ++ second)).dropWhile (fun c => !Unicode.isWhiteSpace c) =
      gap ++ second := by
    rw [List.dropWhile_append_of_pos darkFirst, shapeGap, List.cons_append,
      List.dropWhile_cons_of_neg (by simp [whiteHere])]
  have word' : (gap ++ second).dropWhile Unicode.isWhiteSpace = second := by
    rw [List.dropWhile_append_of_pos white, shapeSecond,
      List.dropWhile_cons_of_neg (by simp [darkHere])]
  rw [affixFields, String.toList_ofList, trimmed, List.append_assoc]
  simp only [word, others, word']

theorem rewritable_pattern {pattern : String} (admitted : IsPattern pattern.toList)
    (plain : ∀ c ∈ pattern.toList, Unicode.isWhiteSpace c = true → c = ' ')
    (uncovered : ¬ ['\\', ' '] <:+: pattern.toList) : Rewritable (.affixPattern, pattern) := by
  obtain ⟨first, gap, second, shape, nonempty, noSpace, some, white, field⟩ := admitted
  have noSpace' : ' ' ∉ second := by
    intro space
    refine uncovered (List.IsInfix.trans (field_chars_space (field.2 []) space) ?_)
    exact ⟨first ++ gap, [], by rw [shape, List.append_nil]⟩
  have dark : ∀ c ∈ first ++ second, Unicode.isWhiteSpace c = false := by
    intro c member
    rw [Bool.eq_false_iff]
    intro isWhite
    have inside : c ∈ pattern.toList := by
      rw [shape, List.append_assoc]
      rcases List.mem_append.mp member with member | member
      · exact List.mem_append_left _ member
      · exact List.mem_append_right _ (List.mem_append_right _ member)
    obtain rfl := plain c inside isWhite
    exact (List.mem_append.mp member).elim noSpace noSpace'
  have spaced : IsSpaced first second := ⟨nonempty, dark, field⟩
  have fields := affix_fields_of_spaced spaced some white
  rw [← shape, String.ofList_toList] at fields
  exact ⟨first, second, fields, spaced⟩

/-- A token of a text can be written again: if it has a marker, a text or fields that may be odd, it
is enough that these are not. -/
theorem token_rewritable {t : Token} (member : t ∈ (Source.ofText text).scan.tokens) (doc : t.HasDoc)
    (unmarked : t.kind = .quotedSymbol → ¬ Marked t.text.toList)
    (spaced : t.kind = .affixPattern →
      (∀ c ∈ t.text.toList, Unicode.isWhiteSpace c = true → c = ' ') ∧
        ¬ ['\\', ' '] <:+: t.text.toList) : Rewritable t.bare := by
  have admitted := scan_tokens_admitted _ t member
  have plain := tokens_on_one_line text t member
  obtain ⟨kind, text, line, lastLine⟩ := t
  cases kind with
  | docstring => exact doc rfl
  | string => exact ⟨admitted, plain (.inl rfl)⟩
  | regex => exact ⟨admitted, plain (.inr rfl)⟩
  | identifier => exact admitted
  | quotedSymbol => exact ⟨admitted, unmarked rfl⟩
  | coreference =>
    obtain ⟨tag, shape, symbolic, noBar⟩ := admitted
    refine ⟨String.ofList tag, ?_, by rwa [String.toList_ofList], by rwa [String.toList_ofList]⟩
    apply String.toList_injective
    simpa [Token.bare] using shape
  | affixPattern => exact rewritable_pattern admitted (spaced rfl).1 (spaced rfl).2
  | _ => trivial

/-- Every token of a text without these oddities can be written again. -/
theorem tokens_rewritable
    (unmarked : ∀ t ∈ (Source.ofText text).scan.tokens, t.kind = .quotedSymbol →
      ¬ Marked t.text.toList)
    (single : ¬ ['\r', '\r', '\n'] <:+: text.toList)
    (spaced : ∀ t ∈ (Source.ofText text).scan.tokens, t.kind = .affixPattern →
      (∀ c ∈ t.text.toList, Unicode.isWhiteSpace c = true → c = ' ') ∧
        ¬ ['\\', ' '] <:+: t.text.toList) :
    ∀ t ∈ (Source.ofText text).scan.tokens, Rewritable t.bare := fun t member =>
  token_rewritable member (tokens_have_docs single t member) (unmarked t member) (spaced t member)

end Sources

end TypeDescription
