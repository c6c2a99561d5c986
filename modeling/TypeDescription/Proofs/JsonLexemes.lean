import Mathlib.Data.List.Basic
import Mathlib.Data.Nat.Digits.Defs
import TypeDescription.Json.Scan

/-!
The text of a JSON value is scanned into the tokens of the value. Every character of a string is
found again, escaped or not, since no character has the code of a unit of a pair; a count is found
again if what follows it does not go on as a number. A value that is held is followed by a comma, by
a closing delimiter or by nothing at all.
-/

namespace TypeDescription.Json

/-! ## Strings -/

/-- The unit that a control character is written as is read back. -/
private theorem hex_unit_of_control :
    ∀ code : Fin 32, hexUnit? '0' '0' (hexDigit (code / 16)) (hexDigit (code % 16)) = some code.val := by
  decide

/-- A character inside a string is read as its code. -/
theorem string_body_escape (c : Char) (rest : List Char) :
    stringBody (escape c ++ rest) =
      (stringBody rest).map fun (codes, after) => (c.toNat :: codes, after) := by
  fun_cases escape c
  case case8 control =>
    have unit := hex_unit_of_control ⟨c.toNat, control⟩
    simp only at unit
    simp only [List.cons_append, List.nil_append]
    rw [stringBody, unit]
    rfl
  case case9 noQuote noBackslash _ _ _ _ _ plain =>
    rw [List.singleton_append, stringBody.eq_def]
    split
    case h_1 same | h_4 same | h_5 same => exact absurd (List.cons.inj same).1 noBackslash
    case h_2 same => cases same
    case h_3 same => exact absurd (List.cons.inj same).1 noQuote
    case h_6 same =>
      obtain ⟨rfl, rfl⟩ := List.cons.inj same
      rw [if_neg plain]
  all_goals rfl

theorem string_body_quoted (text rest : List Char) :
    stringBody (text.flatMap escape ++ '"' :: rest) = some (text.map Char.toNat, rest) := by
  induction text with
  | nil => rfl
  | cons c text ih =>
    rw [List.flatMap_cons, List.append_assoc, string_body_escape, ih]
    rfl

/-- No character has the code of a unit of a pair. -/
private theorem no_unit (c : Char) : isHighUnit c.toNat = false ∧ isLowUnit c.toNat = false := by
  have valid := c.valid
  rw [UInt32.isValidChar, Nat.isValidChar] at valid
  have code : c.toNat = c.val.toNat := rfl
  rw [isHighUnit, isLowUnit, code]
  constructor
  · rw [Bool.and_eq_false_iff, decide_eq_false_iff_not, decide_eq_false_iff_not]
    omega
  · rw [Bool.and_eq_false_iff, decide_eq_false_iff_not, decide_eq_false_iff_not]
    omega

theorem decoded_codes (text : List Char) : decoded? (text.map Char.toNat) = some text := by
  induction text with
  | nil => rfl
  | cons c rest ih =>
    obtain ⟨high, low⟩ := no_unit c
    cases rest with
    | nil => simp [decoded?, high, low, Char.ofNat_toNat]
    | cons d rest =>
      rw [List.map_cons] at ih
      rw [List.map_cons, List.map_cons, decoded?, ih, high, low]
      simp [Char.ofNat_toNat]

/-- A quoted text is one token. -/
theorem lexeme_at_quote (text : String) (rest : List Char) :
    lexemeAt (quote text ++ rest) = some (.text (string text), rest) := by
  have body := string_body_quoted text.toList rest
  have value (written : List Char) : ofCodes (text.toList.map Char.toNat) written = string text := by
    rw [ofCodes, decoded_codes]
    simp only [String.ofList_toList]
  rw [quote, List.cons_append, List.append_assoc, List.singleton_append, lexemeAt, body]
  simp only [Option.map_some, value]

/-! ## Counts -/

/-- What stands after a value does not go on as a number. -/
def Ends (rest : List Char) : Prop :=
  ∀ c ∈ rest.head?, c.isDigit = false ∧ c ≠ '.' ∧ c ≠ 'e' ∧ c ≠ 'E'

theorem Ends.cons {c : Char} (rest : List Char)
    (other : c.isDigit = false ∧ c ≠ '.' ∧ c ≠ 'e' ∧ c ≠ 'E') : Ends (c :: rest) := by
  intro d member
  cases member
  exact other

theorem Ends.nil : Ends [] := fun _ member => nomatch member

/-- Digits are taken up to where they end. -/
private theorem digits_append {found rest : List Char} (nonempty : found ≠ [])
    (all : ∀ c ∈ found, c.isDigit = true) (ends : Ends rest) : digits (found ++ rest) = some (found, rest) := by
  have none : rest.takeWhile Char.isDigit = [] ∧ rest.dropWhile Char.isDigit = rest := by
    cases rest with
    | nil => exact ⟨rfl, rfl⟩
    | cons c rest =>
      have other := (ends c rfl).1
      exact ⟨List.takeWhile_cons_of_neg (by simp [other]), List.dropWhile_cons_of_neg (by simp [other])⟩
  rw [digits, List.takeWhile_append_of_pos all, List.dropWhile_append_of_pos all, none.1, none.2,
    List.append_nil]
  cases found with
  | nil => exact absurd rfl nonempty
  | cons c found => rfl

/-- Only zero is written with a zero in front. -/
private theorem to_digits_cases (n : Nat) :
    (n = 0 ∧ Nat.toDigits 10 n = ['0']) ∨ ∃ c rest, Nat.toDigits 10 n = c :: rest ∧ c ≠ '0' := by
  induction n using Nat.strongRecOn with
  | ind n ih =>
    by_cases small : n < 10
    · rw [Nat.toDigits_of_lt_base small]
      by_cases zero : n = 0
      · exact .inl ⟨zero, by rw [zero]; rfl⟩
      · refine .inr ⟨n.digitChar, [], rfl, ?_⟩
        have other : ∀ m : Fin 10, m.val ≠ 0 → m.val.digitChar ≠ '0' := by decide
        exact other ⟨n, small⟩ zero
    · have large : 10 ≤ n := Nat.le_of_not_lt small
      rw [Nat.toDigits_of_base_le (by decide) large]
      rcases ih (n / 10) (by omega) with ⟨zero, -⟩ | ⟨c, rest, shape, other⟩
      · omega
      · exact .inr ⟨c, rest ++ [(n % 10).digitChar], by rw [shape]; rfl, other⟩

private theorem ne_of_digit {c d : Char} (digit : c.isDigit = true) (plain : d.isDigit = false) :
    c ≠ d := by
  rintro rfl
  rw [digit] at plain
  cases plain

private theorem lexeme_at_digit {c : Char} (digit : c.isDigit = true) (rest : List Char) :
    lexemeAt (c :: rest) = (numberAt (c :: rest)).map fun (value, after) => (.scalar value, after) := by
  have other {d : Char} (plain : d.isDigit = false) (word : List Char) :
      (d :: word).isPrefixOf? (c :: rest) = none := by
    refine Option.eq_none_iff_forall_ne_some.mpr fun after found => ne_of_digit digit plain ?_
    exact (List.cons.inj (List.isPrefixOf?_eq_some_iff_append_eq.mp found)).1.symm
  have wordless : (words.findSome? fun word => (word.1.isPrefixOf? (c :: rest)).map (word.2, ·)) = none := by
    simp [words, other]
  rw [lexemeAt, wordless]
  case x_1 => exact List.cons_ne_nil c rest
  all_goals exact fun _ same => ne_of_digit digit rfl (List.cons.inj same).1

private theorem digit_of_count (n : Nat) : ∀ c ∈ Nat.toDigits 10 n, c.isDigit = true :=
  fun _ member => Nat.isDigit_of_mem_toDigits (by decide) (Nat.le_refl 10) member

private theorem count_starts (n : Nat) : ∃ c more, Nat.toDigits 10 n = c :: more ∧ c.isDigit = true := by
  obtain ⟨c, more, shape⟩ := List.exists_cons_of_ne_nil (Nat.toDigits_ne_nil (b := 10) (n := n))
  exact ⟨c, more, shape, digit_of_count n c (by rw [shape]; exact List.mem_cons_self ..)⟩

/-- The digits of a count are found as they are written. -/
private theorem whole_digits_of_count (n : Nat) {rest : List Char} (ends : Ends rest) :
    wholeDigits (Nat.toDigits 10 n ++ rest) = some (Nat.toDigits 10 n, rest) := by
  have found := digits_append Nat.toDigits_ne_nil (digit_of_count n) ends
  rcases to_digits_cases n with ⟨-, zero⟩ | ⟨c, more, shape, other⟩
  · rw [zero] at found ⊢
    cases rest with
    | nil => exact found
    | cons d rest =>
      have plain : d.isDigit = false := (ends d rfl).1
      rw [List.singleton_append, wholeDigits, plain]
      rfl
  · rw [shape] at found ⊢
    rw [List.cons_append, wholeDigits]
    · exact found
    · intro d rest same
      exact absurd (List.cons.inj same).1 other

private theorem nothing_after (rest : List Char) (ends : Ends rest) :
    fraction rest = some ([], rest) ∧ exponent rest = some ([], rest) := by
  cases rest with
  | nil => exact ⟨rfl, rfl⟩
  | cons c rest =>
    obtain ⟨-, point, lower, upper⟩ := ends c rfl
    constructor
    · rw [fraction]
      exact fun rest same => point (List.cons.inj same).1
    · simp [exponent, lower, upper]

/-- A count is one token, unless what follows it goes on as a number. -/
theorem lexeme_at_count (n : Nat) {rest : List Char} (ends : Ends rest) :
    lexemeAt (Nat.toDigits 10 n ++ rest) = some (.scalar (count n), rest) := by
  have whole := whole_digits_of_count n ends
  have value : digitsValue (Nat.toDigits 10 n) = n := Nat.ofDigitChars_ten_toDigits
  obtain ⟨fractional, power⟩ := nothing_after rest ends
  obtain ⟨c, more, shape, digit⟩ := count_starts n
  rw [shape] at whole value ⊢
  rw [List.cons_append] at whole ⊢
  rw [lexeme_at_digit digit, numberAt]
  · simp [whole, fractional, power, value]
  · exact fun _ same => ne_of_digit digit rfl (List.cons.inj same).1

/-! ## Values -/

/-- Nothing in the value is kept as it is written only. -/
inductive Plain : Json → Prop where
  | null : Plain null
  | bool (value : Bool) : Plain (bool value)
  | count (value : Nat) : Plain (count value)
  | string (value : String) : Plain (string value)
  | array {items : List Json} (inside : ∀ item ∈ items, Plain item) : Plain (array items)
  | object {members : List (String × Json)} (inside : ∀ entry ∈ members, Plain entry.2) :
    Plain (object members)

/-- Tokens with commas between them. -/
def joinedTokens (pieces : List (List Lexeme)) : List Lexeme := [Lexeme.comma].intercalate pieces

theorem joined_tokens_singleton (f : α → List Lexeme) (a : α) : joinedTokens ([a].map f) = f a := by
  simp [joinedTokens]

theorem joined_tokens_cons (f : α → List Lexeme) (a b : α) (rest : List α) :
    joinedTokens ((a :: b :: rest).map f) = f a ++ .comma :: joinedTokens ((b :: rest).map f) := by
  simp [joinedTokens]

mutual

/-- The tokens of a value. -/
def tokens : Json → List Lexeme
  | string value => [.text (string value)]
  | array items => .arrayOpen :: (joinedTokens (tokensOfItems items) ++ [.arrayClose])
  | object members => .objectOpen :: (joinedTokens (tokensOfMembers members) ++ [.objectClose])
  | j => [.scalar j]

/-- The tokens of items, one by one. -/
def tokensOfItems : List Json → List (List Lexeme)
  | [] => []
  | item :: rest => item.tokens :: tokensOfItems rest

/-- The tokens of members, one by one. -/
def tokensOfMembers : List (String × Json) → List (List Lexeme)
  | [] => []
  | (name, value) :: rest => (.text (string name) :: .colon :: value.tokens) :: tokensOfMembers rest

end

/-- The text of a member of an object. -/
def writtenMember (entry : String × Json) : List Char := quote entry.1 ++ ':' :: entry.2.written

/-- The tokens of a member of an object. -/
def tokensOfMember (entry : String × Json) : List Lexeme :=
  .text (string entry.1) :: .colon :: entry.2.tokens

theorem written_items (items : List Json) : writtenItems items = items.map written := by
  induction items with
  | nil => rfl
  | cons item rest ih => rw [writtenItems, ih, List.map_cons]

theorem written_members (members : List (String × Json)) :
    writtenMembers members = members.map writtenMember := by
  induction members with
  | nil => rfl
  | cons entry rest ih => rw [writtenMembers, ih, List.map_cons, writtenMember]

theorem tokens_of_items (items : List Json) : tokensOfItems items = items.map tokens := by
  induction items with
  | nil => rfl
  | cons item rest ih => rw [tokensOfItems, ih, List.map_cons]

theorem tokens_of_members (members : List (String × Json)) :
    tokensOfMembers members = members.map tokensOfMember := by
  induction members with
  | nil => rfl
  | cons entry rest ih => rw [tokensOfMembers, ih, List.map_cons, tokensOfMember]

/-! ## Scanning values -/

private theorem lexemes_covered (found rest : List Char) :
    lexemes (found ++ rest) found.length = lexemes rest 0 := by
  induction found with
  | nil => rfl
  | cons c found ih => exact ih

/-- A token that is found in front is the first one. -/
theorem lexemes_of_lexeme_at {c : Char} {found rest : List Char} {lexeme : Lexeme}
    (visible : isBlank c = false) (first : lexemeAt (c :: (found ++ rest)) = some (lexeme, rest)) :
    lexemes (c :: (found ++ rest)) 0 = (lexemes rest 0).map (lexeme :: ·) := by
  have covered : (found ++ rest).length - rest.length = found.length := by
    rw [List.length_append, Nat.add_sub_cancel]
  rw [lexemes, visible, first]
  simp only [Bool.false_eq_true, ↓reduceIte, bind, Option.bind_some, covered, lexemes_covered]
  cases lexemes rest 0 <;> rfl

/-- A token of one character is the first one, whatever follows it. -/
private theorem lexemes_of_symbol {c : Char} {lexeme : Lexeme} (visible : isBlank c = false)
    (first : ∀ rest, lexemeAt (c :: rest) = some (lexeme, rest)) (rest : List Char) :
    lexemes (c :: rest) 0 = (lexemes rest 0).map (lexeme :: ·) := by
  have found := first ([] ++ rest)
  exact lexemes_of_lexeme_at visible found

/-- The text is scanned into the tokens, whatever stands after it, unless it goes on as a number. -/
def Scans (written : List Char) (tokens : List Lexeme) : Prop :=
  ∀ rest, Ends rest → lexemes (written ++ rest) 0 = (lexemes rest 0).map (tokens ++ ·)

private theorem scans_joined {f : α → List Char} {g : α → List Lexeme} {elements : List α}
    (each : ∀ a ∈ elements, Scans (f a) (g a)) :
    Scans (joined (elements.map f)) (joinedTokens (elements.map g)) := by
  induction elements with
  | nil =>
    intro after _
    cases scanned : lexemes after 0 <;> simp [joined, joinedTokens, scanned]
  | cons a rest ih =>
    obtain ⟨first, later⟩ := List.forall_mem_cons.mp each
    cases rest with
    | nil => simpa [joined, joinedTokens, List.intercalate_singleton] using first
    | cons b rest =>
      intro after ends
      have comma (after : List Char) : lexemes (',' :: after) 0 = (lexemes after 0).map (.comma :: ·) :=
        lexemes_of_symbol rfl (fun _ => rfl) after
      have text : joined ((a :: b :: rest).map f) = f a ++ ',' :: joined ((b :: rest).map f) := by
        simp [joined]
      rw [text, joined_tokens_cons, List.append_assoc, List.cons_append, first _ (Ends.cons _ (by decide)), comma,
        ih later after ends]
      cases lexemes after 0 <;> simp

private theorem scans_enclosed {written : List Char} {tokens : List Lexeme} {opener closer : Char}
    {first last : Lexeme} (inside : Scans written tokens)
    (opens : ∀ rest, lexemes (opener :: rest) 0 = (lexemes rest 0).map (first :: ·))
    (closes : ∀ rest, lexemes (closer :: rest) 0 = (lexemes rest 0).map (last :: ·))
    (ends : ∀ rest, Ends (closer :: rest)) :
    Scans (opener :: (written ++ [closer])) (first :: (tokens ++ [last])) := by
  intro after _
  rw [List.cons_append, List.append_assoc, List.singleton_append, opens, inside _ (ends after), closes]
  cases lexemes after 0 <;> simp

private theorem scans_quote (text : String) (rest : List Char) :
    lexemes (quote text ++ rest) 0 = (lexemes rest 0).map (.text (string text) :: ·) := by
  have first := lexeme_at_quote text rest
  rw [quote, List.cons_append] at first ⊢
  exact lexemes_of_lexeme_at rfl first

private theorem scans_member {entry : String × Json} (value : Scans entry.2.written entry.2.tokens) :
    Scans (writtenMember entry) (tokensOfMember entry) := by
  intro after ends
  have colon (after : List Char) : lexemes (':' :: after) 0 = (lexemes after 0).map (.colon :: ·) :=
    lexemes_of_symbol rfl (fun _ => rfl) after
  rw [writtenMember, List.append_assoc, scans_quote, List.cons_append, colon, value after ends]
  cases lexemes after 0 <;> rfl

/-- The text of a value is scanned into its tokens. -/
theorem scans_written {j : Json} (plain : j.Plain) : Scans j.written j.tokens := by
  induction plain with
  | null => exact fun _ _ => lexemes_of_lexeme_at rfl rfl
  | bool value => cases value <;> exact fun _ _ => lexemes_of_lexeme_at rfl rfl
  | count value =>
    intro after ends
    have first := lexeme_at_count value ends
    obtain ⟨c, more, shape, digit⟩ := count_starts value
    have visible : isBlank c = false := by
      simp [isBlank, ne_of_digit digit]
    rw [written, shape, List.cons_append]
    rw [shape, List.cons_append] at first
    exact lexemes_of_lexeme_at visible first
  | string value => exact fun after _ => scans_quote value after
  | @array items inside ih =>
    rw [written, tokens, written_items, tokens_of_items]
    exact scans_enclosed (scans_joined ih) (lexemes_of_symbol rfl fun _ => rfl)
      (lexemes_of_symbol rfl fun _ => rfl) fun _ => Ends.cons _ (by decide)
  | @object members inside ih =>
    rw [written, tokens, written_members, tokens_of_members]
    exact scans_enclosed (scans_joined fun entry member => scans_member (ih entry member))
      (lexemes_of_symbol rfl fun _ => rfl) (lexemes_of_symbol rfl fun _ => rfl)
      fun _ => Ends.cons _ (by decide)

/-- The tokens of a text are found. -/
theorem lexemes_written {j : Json} (plain : j.Plain) : lexemes j.written 0 = some j.tokens := by
  have scanned := scans_written plain [] Ends.nil
  rw [List.append_nil, lexemes, Option.map_some, List.append_nil] at scanned
  exact scanned

end TypeDescription.Json
