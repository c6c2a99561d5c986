/-!
JSON values and their compact text. An object keeps its members in order, repeated names included.
A value that is well formed but cannot be held is kept as it is written. The text has no white
space, and only quotation marks, backslashes and control characters are escaped.
-/

namespace TypeDescription

/-- A JSON value. -/
inductive Json where
  | null
  | bool (value : Bool)
  | count (value : Nat)
  | string (value : String)
  | array (items : List Json)
  | object (members : List (String × Json))
  /-- Any other value: a number that is no count, a string that is no text, an object with a name
  that is no text, or what lies too deep. -/
  | other (written : List Char)

namespace Json

/-- The digit for a number below sixteen, in lower case. -/
def hexDigit (n : Nat) : Char :=
  if n < 10 then Char.ofNat ('0'.toNat + n) else Char.ofNat ('a'.toNat + (n - 10))

/-- A character inside a string. -/
def escape (c : Char) : List Char :=
  match c with
  | '"' => ['\\', '"']
  | '\\' => ['\\', '\\']
  | '\x08' => ['\\', 'b']
  | '\x0c' => ['\\', 'f']
  | '\n' => ['\\', 'n']
  | '\r' => ['\\', 'r']
  | '\t' => ['\\', 't']
  | c =>
    if c.toNat < 0x20 then
      ['\\', 'u', '0', '0', hexDigit (c.toNat / 16), hexDigit (c.toNat % 16)]
    else
      [c]

/-- A string between quotation marks. -/
def quote (text : String) : List Char := '"' :: (text.toList.flatMap escape ++ ['"'])

/-- Pieces joined by commas. -/
def joined (pieces : List (List Char)) : List Char := [','].intercalate pieces

mutual

/-- The compact text of a value. -/
def written : Json → List Char
  | null => ['n', 'u', 'l', 'l']
  | bool true => ['t', 'r', 'u', 'e']
  | bool false => ['f', 'a', 'l', 's', 'e']
  | count value => Nat.toDigits 10 value
  | string value => quote value
  | array items => '[' :: (joined (writtenItems items) ++ [']'])
  | object members => '{' :: (joined (writtenMembers members) ++ ['}'])
  | other written => written

/-- The texts of the items of an array. -/
def writtenItems : List Json → List (List Char)
  | [] => []
  | item :: rest => item.written :: writtenItems rest

/-- The texts of the members of an object. -/
def writtenMembers : List (String × Json) → List (List Char)
  | [] => []
  | (name, value) :: rest => (quote name ++ ':' :: value.written) :: writtenMembers rest

end

/-- The compact text of a value. -/
def text (j : Json) : String := String.ofList j.written

/-- A string, or null where there is none. -/
def ofOption : Option String → Json
  | some text => string text
  | none => null

end Json

end TypeDescription
