import TypeDescription.Json

/-!
The tokens of a JSON text. White space between tokens is one of four characters. A string is read
into the characters that it denotes: a character outside the first plane is escaped as two units,
and a string in which one of them stands alone is no text. A number without sign, fraction and
exponent is a count.
-/

namespace TypeDescription.Json

/-- A token of a JSON text. -/
inductive Lexeme where
  | scalar (value : Json)
  /-- A string, be it a text or not. -/
  | text (value : Json)
  | arrayOpen
  | arrayClose
  | objectOpen
  | objectClose
  | comma
  | colon

/-- The white space of JSON. -/
def isBlank (c : Char) : Bool := c = ' ' || c = '\t' || c = '\n' || c = '\r'

/-- The value of a hexadecimal digit. -/
def hexValue? (c : Char) : Option Nat :=
  if '0' ≤ c ∧ c ≤ '9' then some (c.toNat - '0'.toNat)
  else if 'a' ≤ c ∧ c ≤ 'f' then some (c.toNat - 'a'.toNat + 10)
  else if 'A' ≤ c ∧ c ≤ 'F' then some (c.toNat - 'A'.toNat + 10)
  else none

/-- The value of four hexadecimal digits. -/
def hexUnit? (a b c d : Char) : Option Nat := do
  pure ((((← hexValue? a) * 16 + (← hexValue? b)) * 16 + (← hexValue? c)) * 16 + (← hexValue? d))

/-- Does this unit start a pair? -/
def isHighUnit (unit : Nat) : Bool := 0xD800 ≤ unit && unit < 0xDC00

/-- Does this unit end a pair? -/
def isLowUnit (unit : Nat) : Bool := 0xDC00 ≤ unit && unit < 0xE000

/-- The character that two units denote together. -/
def pairChar (high low : Nat) : Char :=
  Char.ofNat (0x10000 + (high - 0xD800) * 0x400 + (low - 0xDC00))

/-- The character that one letter after a backslash denotes. -/
def escaped? : Char → Option Char
  | '"' => some '"'
  | '\\' => some '\\'
  | '/' => some '/'
  | 'b' => some '\x08'
  | 'f' => some '\x0c'
  | 'n' => some '\n'
  | 'r' => some '\r'
  | 't' => some '\t'
  | _ => none

/-- The codes in a string up to its closing quotation mark, and what follows that. A code is that of
a character, or the unit of an escape. -/
def stringBody : List Char → Option (List Nat × List Char)
  | '\\' :: 'u' :: a :: b :: c :: d :: rest => do
    let unit ← hexUnit? a b c d
    (stringBody rest).map fun (codes, after) => (unit :: codes, after)
  | [] => none
  | '"' :: rest => some ([], rest)
  | ['\\'] => none
  | '\\' :: c :: rest => do
    let c ← escaped? c
    (stringBody rest).map fun (codes, after) => (c.toNat :: codes, after)
  | c :: rest =>
    if c.toNat < 0x20 then none
    else (stringBody rest).map fun (codes, after) => (c.toNat :: codes, after)

/-- The characters that the codes in a string denote. A unit that starts a pair and the unit that
ends it must stand side by side. Only escapes are units of pairs, for no character has their
codes. -/
def decoded? : List Nat → Option (List Char)
  | [] => some []
  | high :: low :: rest =>
    if isHighUnit high && isLowUnit low then (decoded? rest).map (pairChar high low :: ·)
    else if isHighUnit high || isLowUnit high then none
    else (decoded? (low :: rest)).map (Char.ofNat high :: ·)
  | [code] => if isHighUnit code || isLowUnit code then none else some [Char.ofNat code]

/-- The value of a string with these codes, which is written in this way. -/
def ofCodes (codes : List Nat) (written : List Char) : Json :=
  match decoded? codes with
  | some text => string (String.ofList text)
  | none => other written

/-- One or more digits, as many as there are. -/
def digits (s : List Char) : Option (List Char × List Char) :=
  match s.takeWhile Char.isDigit with
  | [] => none
  | found => some (found, s.dropWhile Char.isDigit)

/-- The digits of a whole number: a zero stands alone. -/
def wholeDigits : List Char → Option (List Char × List Char)
  | '0' :: c :: rest => if c.isDigit then none else some (['0'], c :: rest)
  | s => digits s

/-- A fraction, if there is a point. -/
def fraction : List Char → Option (List Char × List Char)
  | '.' :: rest => (digits rest).map fun (found, after) => ('.' :: found, after)
  | s => some ([], s)

/-- An exponent, if there is the letter for it. -/
def exponent : List Char → Option (List Char × List Char)
  | e :: rest =>
    if e = 'e' || e = 'E' then
      match rest with
      | sign :: more =>
        if sign = '+' || sign = '-' then
          (digits more).map fun (found, after) => (e :: sign :: found, after)
        else
          (digits rest).map fun (found, after) => (e :: found, after)
      | [] => none
    else some ([], e :: rest)
  | [] => some ([], [])

/-- The number that digits denote. -/
def digitsValue (digits : List Char) : Nat :=
  digits.foldl (fun value c => 10 * value + (c.toNat - '0'.toNat)) 0

/-- A number, as much of it as there is. -/
def numberAt (s : List Char) : Option (Json × List Char) := do
  let (sign, s) := match s with
    | '-' :: rest => (['-'], rest)
    | s => ([], s)
  let (whole, s) ← wholeDigits s
  let (fractional, s) ← fraction s
  let (power, s) ← exponent s
  match sign, fractional, power with
  | [], [], [] => pure (count (digitsValue whole), s)
  | _, _, _ => pure (other (sign ++ whole ++ fractional ++ power), s)

/-- The words of JSON and their values. -/
def words : List (List Char × Json) :=
  [ (['n', 'u', 'l', 'l'], null)
  , (['t', 'r', 'u', 'e'], bool true)
  , (['f', 'a', 'l', 's', 'e'], bool false) ]

/-- The token that starts with a character that is not blank, and what follows it. -/
def lexemeAt : List Char → Option (Lexeme × List Char)
  | [] => none
  | '[' :: rest => some (.arrayOpen, rest)
  | ']' :: rest => some (.arrayClose, rest)
  | '{' :: rest => some (.objectOpen, rest)
  | '}' :: rest => some (.objectClose, rest)
  | ',' :: rest => some (.comma, rest)
  | ':' :: rest => some (.colon, rest)
  | '"' :: rest =>
    (stringBody rest).map fun (codes, after) =>
      (.text (ofCodes codes ('"' :: rest.take (rest.length - after.length))), after)
  | s =>
    match words.findSome? fun (word, value) => (word.isPrefixOf? s).map (value, ·) with
    | some (value, after) => some (.scalar value, after)
    | none => (numberAt s).map fun (value, after) => (.scalar value, after)

/-- The tokens of a text, the first `covered` characters of which belong to the token before. -/
def lexemes : List Char → Nat → Option (List Lexeme)
  | [], _ => some []
  | _ :: rest, covered + 1 => lexemes rest covered
  | c :: rest, 0 =>
    if isBlank c then lexemes rest 0
    else do
      let (lexeme, after) ← lexemeAt (c :: rest)
      let others ← lexemes rest (rest.length - after.length)
      pure (lexeme :: others)

end TypeDescription.Json
