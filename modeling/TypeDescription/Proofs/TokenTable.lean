import Mathlib.Data.List.TakeWhile
import TypeDescription.Proofs.Patterns
import TypeDescription.Proofs.Tilings

/-!
The scanner and the table of tokens. At each place of a line the rules of `Lexeme` and the opening
delimiters of the enclosures find what the first matching entry of the table finds, with the same
text and the same end. For most entries the match is the only one, or a run that is as long as
possible; a string and a regular expression can be matched in many ways, which all end at the same
place; only an affix pattern has to be searched for by trying shorter and shorter runs.
-/

namespace TypeDescription

open Pattern

namespace TokenRule

/-- What follows the text of a token, if the rest of the rule matches there, and that text. -/
def ending (after : Pattern) (inner outer : List Char) : Option Match :=
  (after.rests outer).head?.map (inner.take (inner.length - outer.length), ·)

theorem first_eq (rule : TokenRule) (s : List Char) :
    rule.first? s = (rule.before.rests s).findSome? fun inner =>
      (rule.captured.rests inner).findSome? (ending rule.after inner) := by
  simp only [first?, found, List.head?_flatMap, List.head?_map]
  rfl

theorem taken_of_append {inner text rest : List Char} (shape : inner = text ++ rest) :
    inner.take (inner.length - rest.length) = text := by
  rw [shape, List.length_append, Nat.add_sub_cancel, List.take_left]

theorem ending_empty {inner text rest : List Char} (shape : inner = text ++ rest) :
    ending .empty inner rest = some (text, rest) := by
  simp [ending, rests, taken_of_append shape]

theorem ending_exactly {c : Char} {inner outer text rest : List Char} (tail : outer <:+ inner) :
    ending (exactly c) inner outer = some (text, rest) ↔
      outer = c :: rest ∧ inner = text ++ c :: rest := by
  obtain ⟨before, rfl⟩ := tail
  rw [ending, taken_of_append rfl, Option.map_eq_some_iff]
  constructor
  · rintro ⟨rest', found, same⟩
    cases same
    cases outer with
    | nil => cases found
    | cons d outer =>
      rw [exactly, rests] at found
      split at found
      · next admitted =>
        cases found
        rw [eq_of_beq admitted]
        exact ⟨rfl, rfl⟩
      · cases found
  · rintro ⟨rfl, same⟩
    rw [List.append_cancel_right same]
    exact ⟨rest, by simp [exactly, rests], rfl⟩

/-! ## Texts that are given and runs -/

theorem first_literal (kind : TokenKind) (spelled s : List Char) :
    first? { kind, captured := literal spelled } s = Lexeme.literal spelled s := by
  rw [first_eq, find_empty, find_literal, Lexeme.literal]
  cases found : spelled.isPrefixOf? s with
  | none => rfl
  | some rest =>
    have shape := List.isPrefixOf?_eq_some_iff_append_eq.mp found
    exact ending_empty shape.symm

theorem first_definition_operator (s : List Char) :
    first? { kind := .definitionOperator, captured := both (exactly ':') (oneOf ['=', '<']) } s =
      (Lexeme.literal [':', '='] s).or (Lexeme.literal [':', '<'] s) := by
  rw [first_eq, find_empty, find_both]
  cases s with
  | nil => rfl
  | cons c s =>
    cases s with
    | nil => by_cases colon : c = ':' <;> simp [exactly, oneOf, colon, Lexeme.literal, List.isPrefixOf?]
    | cons d s =>
      have text : ending .empty (c :: d :: s) s = some ([c, d], s) := ending_empty rfl
      by_cases colon : c = ':'
      · subst colon
        by_cases equals : d = '='
        · subst equals
          simpa [exactly, oneOf, Lexeme.literal, List.isPrefixOf?] using text
        · by_cases less : d = '<'
          · subst less
            simpa [exactly, oneOf, Lexeme.literal, List.isPrefixOf?] using text
          · simp [exactly, oneOf, Lexeme.literal, List.isPrefixOf?, equals, less, Ne.symm equals,
              Ne.symm less]
      · simp [exactly, colon, Ne.symm colon, Lexeme.literal, List.isPrefixOf?]

/-- The preferred answer decides, if anything is made of it. -/
theorem find_of_head {f : α → Option β} {l : List α} {a : α} {b : β} (head : l.head? = some a)
    (here : f a = some b) : l.findSome? f = some b := by
  obtain ⟨rest, rfl⟩ := List.head?_eq_some_iff.mp head
  rw [List.findSome?_cons, here]

/-- A run at the end of a token, after what belongs to its text already. -/
theorem find_run (admits : Char → Bool) (marks s : List Char) :
    ((many (one admits)).rests s).findSome? (ending .empty (marks ++ s)) =
      some (marks ++ s.takeWhile admits, s.dropWhile admits) := by
  refine find_of_head (head_rests_many_one s) (ending_empty ?_)
  rw [List.append_assoc, List.takeWhile_append_dropWhile]

theorem find_exactly (c : Char) (s : List Char) {f : List Char → Option β} :
    ((exactly c).rests s).findSome? f =
      match s with
      | d :: rest => if d = c then f rest else none
      | [] => none := by
  cases s with
  | nil => rfl
  | cons d rest => simp [exactly]

theorem first_line_comment (s : List Char) :
    first? { kind := .lineComment, before := exactly ';', captured := many (noneOf ['\n']) } s =
      Lexeme.lineComment s := by
  rw [first_eq, find_exactly, Lexeme.lineComment.eq_def]
  cases s with
  | nil => rfl
  | cons c rest =>
    by_cases same : c = ';'
    · subst same
      have class_eq : (fun d => !(['\n'].contains d)) = fun d : Char => decide (d ≠ '\n') := by
        funext d
        simp
      have run := find_run (fun d => !(['\n'].contains d)) [] rest
      rw [class_eq] at run
      simpa [noneOf, class_eq] using run
    · simp [same]

/-- A symbol after what belongs to the text of its token already. -/
theorem find_symbol (marks s : List Char) :
    ((atLeastOnce symbolChar).rests s).findSome? (ending .empty (marks ++ s)) =
      (Lexeme.symbol s).map fun (text, after) => (marks ++ text, after) := by
  rw [atLeastOnce, find_both, Lexeme.symbol]
  cases s with
  | nil => rfl
  | cons c rest =>
    rw [symbolChar, find_one_cons]
    by_cases admitted : Lexeme.isSymbolChar c = true
    · have run := find_run Lexeme.isSymbolChar (marks ++ [c]) rest
      rw [List.append_assoc, List.singleton_append] at run
      rw [List.takeWhile_cons_of_pos admitted, List.dropWhile_cons_of_pos admitted]
      refine (if_pos admitted).trans (run.trans ?_)
      simp
    · rw [List.takeWhile_cons_of_neg admitted]
      exact if_neg admitted

theorem first_identifier (s : List Char) :
    first? { kind := .identifier, captured := atLeastOnce symbolChar } s = Lexeme.symbol s := by
  have whole := find_symbol [] s
  rw [List.nil_append] at whole
  rw [first_eq, find_empty, whole]
  simp

theorem first_quoted_symbol (s : List Char) :
    first? { kind := .quotedSymbol, before := exactly '\'', captured := atLeastOnce symbolChar } s =
      Lexeme.quotedSymbol s := by
  rw [first_eq, find_exactly, Lexeme.quotedSymbol.eq_def]
  cases s with
  | nil => rfl
  | cons c rest =>
    by_cases same : c = '\''
    · subst same
      have whole := find_symbol [] rest
      rw [List.nil_append] at whole
      simpa using whole
    · simp [same]

theorem first_coreference (s : List Char) :
    first? { kind := .coreference, captured := both (exactly '#') (atLeastOnce symbolChar) } s =
      Lexeme.coreference s := by
  rw [first_eq, find_empty, find_both, find_exactly, Lexeme.coreference.eq_def]
  cases s with
  | nil => rfl
  | cons c rest =>
    by_cases same : c = '#'
    · subst same
      simpa using find_symbol ['#'] rest
    · simp [same]

theorem first_affix_marker (s : List Char) :
    first? { kind := .affixMarker, before := exactly '%'
             captured := either (literal ['p', 'r', 'e', 'f', 'i', 'x'])
               (literal ['s', 'u', 'f', 'f', 'i', 'x']) } s = Lexeme.affixMarker s := by
  rw [first_eq, find_exactly, Lexeme.affixMarker.eq_def]
  cases s with
  | nil => rfl
  | cons c rest =>
    by_cases same : c = '%'
    · subst same
      have front := first_literal .affixMarker ['p', 'r', 'e', 'f', 'i', 'x'] rest
      have back := first_literal .affixMarker ['s', 'u', 'f', 'f', 'i', 'x'] rest
      rw [first_eq, find_empty] at front back
      simp only [if_pos, find_either]
      rw [front, back]
      cases Lexeme.literal ['p', 'r', 'e', 'f', 'i', 'x'] rest <;> rfl
    · simp [same]

/-! ## Strings and regular expressions -/

/-- Between these places stands no closing character that no backslash covers, whatever follows. -/
def Passes (closer : Char) (s rest : List Char) : Prop :=
  ∃ text, s = text ++ rest ∧ ∀ more, Lexeme.upTo closer (text ++ more) =
    (Lexeme.upTo closer more).map fun (inner, after) => (text ++ inner, after)

section Enclosed

variable {closer : Char}

theorem Passes.refl (s : List Char) : Passes closer s s :=
  ⟨[], rfl, fun more => by simp⟩

theorem Passes.trans {s middle rest : List Char} (before : Passes closer s middle)
    (after : Passes closer middle rest) : Passes closer s rest := by
  obtain ⟨text, rfl, passed⟩ := before
  obtain ⟨text', rfl, passed'⟩ := after
  refine ⟨text ++ text', (List.append_assoc ..).symm, fun more => ?_⟩
  rw [List.append_assoc, passed, passed', Option.map_map]
  simp [Function.comp_def]

theorem passes_plain {s rest : List Char} (taken : Takes (noneOf [closer, '\\']) s rest) :
    Passes closer s rest := by
  obtain ⟨c, rfl, admitted⟩ := takes_one_iff.mp taken
  have apart : c ≠ closer ∧ c ≠ '\\' := by simpa using admitted
  refine ⟨[c], rfl, fun more => ?_⟩
  rw [List.singleton_append, Lexeme.up_to_cons apart.2, if_neg apart.1]
  rfl

theorem passes_covered {s rest : List Char} (taken : Takes covered s rest) : Passes closer s rest := by
  cases taken with
  | both before after =>
    obtain ⟨b, rfl, backslash⟩ := takes_one_iff.mp before
    obtain ⟨c, rfl, admitted⟩ := takes_one_iff.mp after
    obtain rfl := eq_of_beq backslash
    have plain : c ≠ '\n' := by simpa using admitted
    refine ⟨['\\', c], rfl, fun more => ?_⟩
    rw [List.cons_append, List.singleton_append, Lexeme.upTo, if_neg plain]
    rfl

/-- Plain characters and blocks reach the first closing character that no backslash covers. -/
private theorem takes_of_up_to {block : Pattern}
    (goesOn : ∀ {c s middle rest}, c ≠ '\n' → Takes (many (noneOf [closer, '\\'])) s middle →
      Takes (many block) middle rest → Takes (many block) ('\\' :: c :: s) rest) {s text after : List Char}
    (answer : Lexeme.upTo closer s = some (text, after)) :
    ∃ middle, Takes (many (noneOf [closer, '\\'])) s middle ∧
      Takes (many block) middle (closer :: after) := by
  fun_induction Lexeme.upTo closer s generalizing text with
  | case1 => cases answer
  | case2 => cases answer
  | case3 => cases answer
  | case4 c rest noFeed ih =>
    obtain ⟨⟨text', after'⟩, found, same⟩ := Option.map_eq_some_iff.mp answer
    cases same
    obtain ⟨middle, run, blocks⟩ := ih found
    exact ⟨_, .done, goesOn noFeed run blocks⟩
  | case5 rest =>
    cases answer
    exact ⟨_, .done, .done⟩
  | case6 c rest noEnd noCover other ih =>
    obtain ⟨⟨text', after'⟩, found, same⟩ := Option.map_eq_some_iff.mp answer
    cases same
    obtain ⟨middle, run, blocks⟩ := ih found
    have admitted : (!([closer, '\\'].contains c)) = true := by
      simp [other, ne_escape noEnd noCover]
    exact ⟨middle, .turn (.one admitted) run, blocks⟩

/-- However the blocks are taken, they end before the first closing character that no backslash
covers. -/
theorem find_enclosed (plain : closer ≠ '\\') {block : Pattern}
    (passes : ∀ {s rest}, Takes block s rest → Passes closer s rest)
    (goesOn : ∀ {c s middle rest}, c ≠ '\n' → Takes (many (noneOf [closer, '\\'])) s middle →
      Takes (many block) middle rest → Takes (many block) ('\\' :: c :: s) rest) (s : List Char) :
    ((both (many (noneOf [closer, '\\'])) (many block)).rests s).findSome?
      (ending (exactly closer) s) = Lexeme.upTo closer s := by
  refine find_some_of_unique (fun outer member found answer => ?_) fun found answer => ?_
  · have taken := mem_rests_iff.mp member
    obtain ⟨rfl, shape⟩ := (ending_exactly taken.suffix).mp answer
    cases taken with
    | both before after =>
      have run := before.of_many Passes.refl Passes.trans passes_plain
      have blocks := after.of_many Passes.refl Passes.trans passes
      obtain ⟨text, shape', passed⟩ := run.trans blocks
      obtain rfl := List.append_cancel_right (shape.symm.trans shape')
      rw [shape', passed, Lexeme.up_to_cons plain, if_pos rfl]
      simp
  · obtain ⟨text, after⟩ := found
    obtain ⟨-, shape⟩ := Lexeme.up_to_eq_some plain answer
    obtain ⟨middle, run, blocks⟩ := takes_of_up_to goesOn answer
    have taken := Takes.both run blocks
    exact ⟨_, mem_of_takes taken, (ending_exactly taken.suffix).mpr ⟨rfl, shape⟩⟩

end Enclosed

theorem takes_covered {c : Char} (noFeed : c ≠ '\n') (s : List Char) :
    Takes covered ('\\' :: c :: s) s :=
  .both (.one (by simp)) (.one (by simpa using noFeed))

theorem find_between {kind : TokenKind} {opener closer : Char} {captured : Pattern} (s : List Char)
    (inside : ∀ s, (captured.rests s).findSome? (ending (exactly closer) s) = Lexeme.upTo closer s) :
    first? { kind, before := exactly opener, captured, after := exactly closer } s =
      Lexeme.between opener closer s := by
  rw [first_eq, find_exactly, Lexeme.between.eq_def]
  cases s with
  | nil => rfl
  | cons c rest =>
    by_cases same : c = opener
    · simpa [same] using inside rest
    · simp [same]

theorem first_string (s : List Char) :
    first? { kind := .string, before := exactly '"'
             captured := both (many (noneOf ['"', '\\']))
               (many (both covered (many (noneOf ['"', '\\']))))
             after := exactly '"' } s = Lexeme.between '"' '"' s := by
  refine find_between s (find_enclosed (by decide) (fun taken => ?_) fun noFeed run blocks => ?_)
  · cases taken with
    | both before after =>
      exact (passes_covered before).trans (after.of_many Passes.refl Passes.trans passes_plain)
  · exact .turn (.both (takes_covered noFeed _) run) blocks

theorem first_regex (s : List Char) :
    first? { kind := .regex, before := exactly '^'
             captured := both (many (noneOf ['$', '\\']))
               (many (either covered (many (noneOf ['$', '\\']))))
             after := exactly '$' } s = Lexeme.between '^' '$' s := by
  refine find_between s (find_enclosed (by decide) (fun taken => ?_) fun noFeed run blocks => ?_)
  · cases taken with
    | first taken => exact passes_covered taken
    | second taken => exact taken.of_many Passes.refl Passes.trans passes_plain
  · exact .turn (.first (takes_covered noFeed _)) (.turn (.second run) blocks)

/-! ## Letter sets -/

section LetterSet

variable {body text rest : List Char}

/-- White space reaches the end of a line or it does not; that it may stop before a line feed makes
no difference. -/
theorem head_white_to_end {trail : List Char} (inner : '\n' ∉ trail.dropLast) :
    ((both (many whiteSpace) lineEnd).rests trail).head? =
      if trail.all Unicode.isWhiteSpace then some [] else none := by
  rw [rests, List.head?_flatMap]
  by_cases white : trail.all Unicode.isWhiteSpace = true
  · have all : trail.dropWhile Unicode.isWhiteSpace = [] :=
      List.dropWhile_eq_nil_iff.2 (List.all_eq_true.mp white)
    rw [if_pos white]
    exact find_of_head (head_rests_many_one trail) (by rw [all]; rfl)
  · rw [if_neg white, List.findSome?_eq_none_iff]
    intro rest member
    obtain ⟨run, rfl, space⟩ := takes_many_one_iff.mp (takes_of_mem member)
    cases rest with
    | nil => exact absurd (List.all_eq_true.mpr (by simpa using space)) white
    | cons c rest =>
      rw [rests]
      by_cases feed : c = '\n'
      · subst feed
        have last : rest = [] := by
          by_contra more
          have inside := inner_of_suffix _ inner
          rw [List.dropLast_cons_of_ne_nil more] at inside
          exact inside (List.mem_cons_self ..)
        subst last
        refine absurd (List.all_eq_true.mpr ?_) white
        exact List.forall_mem_append.mpr ⟨space, List.forall_mem_singleton.mpr (by decide)⟩
      · simp [feed]

theorem ending_letter_set {outer : List Char} (tail : outer <:+ body) (inner : '\n' ∉ body.dropLast) :
    ending (both (exactly ')') (both (many whiteSpace) lineEnd)) body outer = some (text, rest) ↔
      rest = [] ∧ ∃ trail, outer = ')' :: trail ∧ (∀ c ∈ trail, Unicode.isWhiteSpace c = true) ∧
        body = text ++ ')' :: trail := by
  obtain ⟨before, rfl⟩ := tail
  rw [ending, taken_of_append rfl, rests, List.head?_flatMap, find_exactly]
  cases outer with
  | nil => simp
  | cons c trail =>
    have inside := inner_of_suffix _ inner
    have inner' : '\n' ∉ trail.dropLast := inner_of_suffix [c] inside
    by_cases closes : c = ')'
    · subst closes
      simp only [if_true, head_white_to_end inner']
      by_cases white : trail.all Unicode.isWhiteSpace = true
      · have space := List.all_eq_true.mp white
        simp only [if_pos white, Option.map_some, Option.some.injEq, Prod.mk.injEq]
        constructor
        · rintro ⟨rfl, rfl⟩
          exact ⟨rfl, trail, rfl, space, rfl⟩
        · rintro ⟨rfl, trail', same, -, shape⟩
          cases same
          exact ⟨List.append_cancel_right shape, rfl⟩
      · simp only [if_neg white, Option.map_none]
        constructor
        · intro same
          cases same
        rintro ⟨-, trail', same, space, -⟩
        cases same
        exact absurd (List.all_eq_true.mpr space) white
    · simp [closes]

theorem last_parenthesis :
    (match body.reverse.dropWhile Unicode.isWhiteSpace with
      | ')' :: before => some (before.reverse, [])
      | _ => none) = some (text, rest) ↔
      rest = [] ∧ ∃ trail, (∀ c ∈ trail, Unicode.isWhiteSpace c = true) ∧ body = text ++ ')' :: trail := by
  constructor
  · intro found
    split at found
    · next before closes =>
      cases found
      have split := (body.reverse.takeWhile_append_dropWhile (p := Unicode.isWhiteSpace)).symm
      rw [closes] at split
      refine ⟨rfl, (body.reverse.takeWhile Unicode.isWhiteSpace).reverse, fun c member => ?_, ?_⟩
      · exact List.all_eq_true.mp List.all_takeWhile c (List.mem_reverse.mp member)
      · simpa using congrArg List.reverse split
    · cases found
  · rintro ⟨rfl, trail, space, rfl⟩
    have white : ∀ c ∈ trail.reverse, Unicode.isWhiteSpace c = true :=
      fun c member => space c (List.mem_reverse.mp member)
    have closes : (text ++ ')' :: trail).reverse.dropWhile Unicode.isWhiteSpace =
        ')' :: text.reverse := by
      rw [List.reverse_append, List.reverse_cons, List.append_assoc,
        List.dropWhile_append_of_pos white]
      rfl
    rw [closes]
    simp

theorem first_letter_set {s : List Char} (inner : '\n' ∉ s.dropLast) :
    first? { kind := .letterSet
             before := both (exactly '%') (both (many whiteSpace) (exactly '('))
             captured := many anyChar
             after := both (exactly ')') (both (many whiteSpace) lineEnd) } s = Lexeme.letterSet s := by
  rw [first_eq, find_both, find_exactly, Lexeme.letterSet.eq_def]
  cases s with
  | nil => rfl
  | cons c rest =>
    by_cases percent : c = '%'
    · subst percent
      simp only [if_true, whiteSpace, find_run_then (show Unicode.isWhiteSpace '(' = false by decide),
        find_exactly]
      cases opens : rest.dropWhile Unicode.isWhiteSpace with
      | nil => rfl
      | cons d body =>
        by_cases parenthesis : d = '('
        · subst parenthesis
          have inner' : '\n' ∉ body.dropLast := by
            have whole : '%' :: rest.takeWhile Unicode.isWhiteSpace ++ '(' :: body = '%' :: rest := by
              rw [← opens, List.cons_append, List.takeWhile_append_dropWhile]
            rw [← whole] at inner
            exact inner_of_suffix ['('] (inner_of_suffix _ inner)
          simp only [if_true]
          refine find_some_of_unique (fun outer member found answer => ?_) fun found answer => ?_
          · have tail := (takes_of_mem member).suffix
            obtain ⟨text, after⟩ := found
            obtain ⟨rfl, trail, -, space, shape⟩ := (ending_letter_set tail inner').mp answer
            exact last_parenthesis.mpr ⟨rfl, trail, space, shape⟩
          · obtain ⟨text, after⟩ := found
            obtain ⟨rfl, trail, space, rfl⟩ := last_parenthesis.mp answer
            have noFeed : ∀ c ∈ text, (!(['\n'].contains c)) = true := by
              intro c member
              rw [List.dropLast_append_of_ne_nil (List.cons_ne_nil _ _)] at inner'
              have other : c ≠ '\n' := fun same => inner' (List.mem_append_left _ (same ▸ member))
              simp [other]
            have taken : Takes (many anyChar) (text ++ ')' :: trail) (')' :: trail) :=
              takes_many_one_iff.mpr ⟨text, rfl, noFeed⟩
            exact ⟨_, mem_of_takes taken,
              (ending_letter_set taken.suffix inner').mpr ⟨rfl, trail, rfl, space, rfl⟩⟩
        · simp [parenthesis]
    · simp [percent]

end LetterSet

/-! ## Affix patterns -/

section AffixPattern

/-- Between these places stand characters of a second field, whatever follows. -/
def InField (s rest : List Char) : Prop :=
  ∃ text, s = text ++ rest ∧ ∀ more, Lexeme.fieldChars (text ++ more) =
    (text ++ (Lexeme.fieldChars more).1, (Lexeme.fieldChars more).2)

theorem InField.refl (s : List Char) : InField s s := ⟨[], rfl, fun _ => rfl⟩

theorem InField.trans {s middle rest : List Char} (before : InField s middle)
    (after : InField middle rest) : InField s rest := by
  obtain ⟨text, rfl, passed⟩ := before
  obtain ⟨text', rfl, passed'⟩ := after
  refine ⟨text ++ text', (List.append_assoc ..).symm, fun more => ?_⟩
  rw [List.append_assoc, passed, passed', List.append_assoc]

/-- A character of the second field, or a backslash and the character that it covers. -/
theorem in_field_of_takes {s rest : List Char}
    (taken : Takes (either (noneOf [' ', ')', '\\']) covered) s rest) :
    InField s rest ∧ rest ≠ s := by
  cases taken with
  | first taken =>
    obtain ⟨c, rfl, admitted⟩ := takes_one_iff.mp taken
    have apart : c ≠ ' ' ∧ c ≠ ')' ∧ c ≠ '\\' := by simpa using admitted
    refine ⟨⟨[c], rfl, fun more => ?_⟩, (List.cons_ne_self c rest).symm⟩
    have goesOn : ¬ (c = ' ' ∨ c = ')') := not_or.mpr ⟨apart.1, apart.2.1⟩
    rw [List.singleton_append, Lexeme.field_chars_cons apart.2.2, if_neg goesOn]
    rfl
  | second taken =>
    cases taken with
    | both before after =>
      obtain ⟨b, rfl, backslash⟩ := takes_one_iff.mp before
      obtain ⟨c, rfl, admitted⟩ := takes_one_iff.mp after
      obtain rfl := eq_of_beq backslash
      have plain : c ≠ '\n' := by simpa using admitted
      refine ⟨⟨['\\', c], rfl, fun more => ?_⟩, fun same => ?_⟩
      · rw [List.cons_append, List.singleton_append, Lexeme.fieldChars, if_neg plain]
        rfl
      · have lengths := congrArg List.length same
        simp only [List.length_cons] at lengths
        omega

theorem takes_field_chars (s : List Char) :
    Takes (many (either (noneOf [' ', ')', '\\']) covered)) s (Lexeme.fieldChars s).2 := by
  fun_induction Lexeme.fieldChars s with
  | case1 | case2 | case3 | case5 => exact .done
  | case4 c rest plain ih => exact .turn (.second (takes_covered plain rest)) ih
  | case6 c rest noEnd noCover goesOn ih =>
    obtain ⟨noSpace, noParenthesis⟩ := not_or.mp goesOn
    refine .turn (.first (.one ?_)) ih
    simp [noSpace, noParenthesis, ne_escape noEnd noCover]

/-- What is taken of a second field is all of its characters, and there are some. -/
private theorem field_of_takes {s text after : List Char} (shape : s = text ++ ')' :: after)
    (taken : Takes (atLeastOnce (either (noneOf [' ', ')', '\\']) covered)) s (')' :: after)) :
    Lexeme.fieldChars s = (text, ')' :: after) ∧ text ≠ [] := by
  cases taken with
  | both now later =>
    obtain ⟨first, differs⟩ := in_field_of_takes now
    have others := later.of_many InField.refl InField.trans fun taken => (in_field_of_takes taken).1
    refine ⟨?_, fun none => differs ?_⟩
    · obtain ⟨text', shape', passed⟩ := first.trans others
      obtain rfl := List.append_cancel_right (shape.symm.trans shape')
      rw [shape', passed, Lexeme.field_chars_cons (by decide), if_pos (.inr rfl), List.append_nil]
    · rw [none, List.nil_append] at shape
      rw [shape] at first ⊢
      obtain ⟨run, whole, -⟩ := first
      exact List.IsSuffix.eq_of_length_le ⟨run, whole.symm⟩ later.suffix.length_le

/-- The second field can only be taken in one way. -/
theorem find_second_field (s : List Char) :
    ((atLeastOnce (either (noneOf [' ', ')', '\\']) covered)).rests s).findSome?
      (ending (exactly ')') s) = Lexeme.secondField s := by
  refine find_some_of_unique (fun outer member found answer => ?_) fun found answer => ?_
  · have taken := takes_of_mem member
    obtain ⟨text, after⟩ := found
    obtain ⟨rfl, shape⟩ := (ending_exactly taken.suffix).mp answer
    obtain ⟨field, nonempty⟩ := field_of_takes shape taken
    obtain ⟨c, text, rfl⟩ := List.exists_cons_of_ne_nil nonempty
    rw [Lexeme.secondField, field]
    rfl
  · obtain ⟨text, after⟩ := found
    rw [Lexeme.secondField] at answer
    split at answer
    · next c text' after' field =>
      cases answer
      obtain ⟨-, shape⟩ := Lexeme.field_chars_eq field
      have taken := takes_field_chars s
      have reached : (Lexeme.fieldChars s).2 = ')' :: after := congrArg Prod.snd field
      rw [reached] at taken
      cases taken with
      | done =>
        have lengths := congrArg List.length shape
        simp only [List.length_cons, List.length_append] at lengths
        omega
      | turn now later =>
        have whole := Takes.both now later
        exact ⟨_, mem_of_takes whole, (ending_exactly whole.suffix).mpr ⟨rfl, shape⟩⟩
    · cases answer

/-- What is taken after `n` characters, with these characters put back in front of it. -/
theorem find_keeping {p after : Pattern} {rule : List Char → Option Match}
    (found : ∀ s, (p.rests s).findSome? (ending after s) = rule s) (s : List Char) (n : Nat) :
    (p.rests (s.drop n)).findSome? (ending after s) = Lexeme.keeping rule s n := by
  rw [Lexeme.keeping, ← found, List.map_findSome?]
  refine find_some_congr fun outer member => ?_
  obtain ⟨before, shape⟩ := (takes_of_mem member).suffix
  have whole : s = s.take n ++ before ++ outer := by
    rw [List.append_assoc, shape, List.take_append_drop]
  simp only [Function.comp_apply, ending, Option.map_map, taken_of_append whole,
    taken_of_append shape.symm]
  rfl

theorem first_after_first_field (s : List Char) : afterFirstField.first? s = Lexeme.gapAndField s := by
  rw [first_eq, afterFirstField, find_empty, find_both, whiteSpace, find_at_least_once_one,
    Lexeme.gapAndField]
  simp only [find_keeping find_second_field]

theorem first_affix_pattern (s : List Char) :
    first? { kind := .affixPattern
             before := exactly '('
             captured := both (atLeastOnce (noneOf [' '])) afterFirstField.captured
             after := afterFirstField.after } s = Lexeme.affixPattern s := by
  have later (s : List Char) : (afterFirstField.captured.rests s).findSome?
      (ending afterFirstField.after s) = Lexeme.gapAndField s := by
    have whole := first_eq afterFirstField s
    rwa [first_after_first_field, afterFirstField, find_empty, eq_comm] at whole
  rw [first_eq, find_exactly, Lexeme.affixPattern.eq_def]
  cases s with
  | nil => rfl
  | cons c rest =>
    by_cases same : c = '('
    · subst same
      have class_eq : noneOf [' '] = one fun d => decide (d ≠ ' ') := by
        refine congrArg one (funext fun d => ?_)
        simp
      simp only [if_true, class_eq, find_both (atLeastOnce (one _)), find_at_least_once_one,
        find_keeping later]
    · simp [same]

end AffixPattern

/-! ## The table as a whole -/

private theorem find_some_cons_or {f : α → Option β} (a : α) (l : List α) :
    (a :: l).findSome? f = (f a).or (l.findSome? f) := by
  rw [List.findSome?_cons]
  cases f a <;> rfl

/-- The enclosures come first in the table, with the text of their opening delimiter. -/
theorem opening_entries (s : List Char) :
    ((Lexeme.literal ['"', '"', '"'] s).map (TokenKind.docstring, ·)).or
        ((Lexeme.literal ['#', '|'] s).map (TokenKind.blockComment, ·)) =
      (Enclosure.opening? s).map fun (enclosure, body) =>
        (enclosure.kind, enclosure.opener, body) := by
  simp only [Lexeme.literal, Enclosure.opening?, Enclosure.opener]
  cases ['"', '"', '"'].isPrefixOf? s with
  | some body => rfl
  | none =>
    cases ['#', '|'].isPrefixOf? s <;> rfl

/-- What the first matching entry of the table finds is what the scanner looks for. -/
theorem table_first_eq {s : List Char} (inner : '\n' ∉ s.dropLast) :
    tableFirst? s =
      ((Enclosure.opening? s).map fun (enclosure, body) =>
        (enclosure.kind, enclosure.opener, body)).or (Lexeme.first? s) := by
  rw [← opening_entries, tableFirst?, Lexeme.first?, table, Lexeme.rules]
  simp only [find_some_cons_or, List.findSome?_nil, Option.or_assoc, first_literal,
    first_line_comment, first_string, first_quoted_symbol, first_regex, first_definition_operator,
    first_coreference, first_letter_set inner, first_affix_marker, first_affix_pattern,
    first_identifier, Option.map_or]

end TokenRule

end TypeDescription
