import TypeDescription.Token.Lexeme

/-!
The table of tokens as it is written down: a regular expression for each kind of token, in the
order in which they are tried. An expression answers with all that it can leave of a text, the
preferred answer first: an alternative before the alternatives after it, and another turn of a
repetition before its end. So the first answer is that of a search that backtracks. The table is
what the rules of `Lexeme` have to agree with; scanning does not use it.
-/

namespace TypeDescription

/-- Regular expressions, as far as the table needs them. -/
inductive Pattern where
  | empty
  | one (admits : Char → Bool)
  | both (first second : Pattern)
  | either (first second : Pattern)
  | many (turn : Pattern)
  | lineEnd

namespace Pattern

/-- What a repetition leaves after at most `fuel` turns. A turn that takes nothing is the last. -/
def repeated (turn : List Char → List (List Char)) : Nat → List Char → List (List Char)
  | 0, s => [s]
  | fuel + 1, s =>
    (turn s).flatMap (fun rest => if rest = s then [s] else repeated turn fuel rest) ++ [s]

/-- All that a match can leave of the text, the preferred match first. -/
def rests : Pattern → List Char → List (List Char)
  | empty, s => [s]
  | one admits, c :: s => if admits c then [s] else []
  | one _, [] => []
  | both first second, s => (first.rests s).flatMap second.rests
  | either first second, s => first.rests s ++ second.rests s
  | many turn, s => repeated turn.rests (s.length + 1) s
  | lineEnd, s => if s.head?.all (· == '\n') then [s] else []

/-- This character. -/
def exactly (c : Char) : Pattern := one (· == c)

/-- One of these characters. -/
def oneOf (chars : List Char) : Pattern := one chars.contains

/-- A character that is none of these. -/
def noneOf (chars : List Char) : Pattern := one fun c => !chars.contains c

/-- Any character of a line but its line feed. -/
def anyChar : Pattern := noneOf ['\n']

def whiteSpace : Pattern := one Unicode.isWhiteSpace

/-- A character of a symbol: no white space and none that has a meaning of its own. -/
def symbolChar : Pattern :=
  one fun c => !Unicode.isWhiteSpace c && !
    [ '!', '"', '#', '$', '&', '\'', '(', ')', ',', '.', '/', ':', ';', '<', '=', '>', '[', ']', '^'
    ].contains c

/-- At least one turn. -/
def atLeastOnce (turn : Pattern) : Pattern := both turn (many turn)

/-- Exactly this text. -/
def literal (spelled : List Char) : Pattern :=
  spelled.foldr (fun c later => both (exactly c) later) empty

/-- A backslash and the character that it covers. -/
def covered : Pattern := both (exactly '\\') anyChar

end Pattern

/-- An entry of the table: what stands before the text of the token, the text itself, and what
stands after it. -/
structure TokenRule where
  kind : TokenKind
  before : Pattern := .empty
  captured : Pattern
  after : Pattern := .empty

namespace TokenRule

open Pattern

/-- All matches at the start of the text, the preferred one first. -/
def found (rule : TokenRule) (s : List Char) : List Match :=
  (rule.before.rests s).flatMap fun inner =>
    (rule.captured.rests inner).flatMap fun outer =>
      (rule.after.rests outer).map fun rest => (inner.take (inner.length - outer.length), rest)

/-- The match of this rule at the start of the text. -/
def first? (rule : TokenRule) (s : List Char) : Option Match := (rule.found s).head?

/-- The rest of an affix pattern after its first field: white space, the second field and the
closing parenthesis. -/
def afterFirstField : TokenRule :=
  { kind := .affixPattern
    captured := both (atLeastOnce whiteSpace) (atLeastOnce (either (noneOf [' ', ')', '\\']) covered))
    after := exactly ')' }

/-- The entries in the order in which they are tried. Of docstrings and block comments only the
opening delimiter is matched. -/
def table : List TokenRule :=
  [ { kind := .docstring, captured := literal ['"', '"', '"'] }
  , { kind := .blockComment, captured := literal ['#', '|'] }
  , { kind := .lineComment, before := exactly ';', captured := many (noneOf ['\n']) }
  , { kind := .string
      before := exactly '"'
      captured := both (many (noneOf ['"', '\\'])) (many (both covered (many (noneOf ['"', '\\']))))
      after := exactly '"' }
  , { kind := .quotedSymbol, before := exactly '\'', captured := atLeastOnce symbolChar }
  , { kind := .regex
      before := exactly '^'
      captured := both (many (noneOf ['$', '\\'])) (many (either covered (many (noneOf ['$', '\\']))))
      after := exactly '$' }
  , { kind := .definitionOperator, captured := both (exactly ':') (oneOf ['=', '<']) }
  , { kind := .addendumOperator, captured := literal [':', '+'] }
  , { kind := .ellipsis, captured := literal ['.', '.', '.'] }
  , { kind := .dot, captured := literal ['.'] }
  , { kind := .ampersand, captured := literal ['&'] }
  , { kind := .comma, captured := literal [','] }
  , { kind := .avmOpen, captured := literal ['['] }
  , { kind := .diffListOpen, captured := literal ['<', '!'] }
  , { kind := .consListOpen, captured := literal ['<'] }
  , { kind := .avmClose, captured := literal [']'] }
  , { kind := .diffListClose, captured := literal ['!', '>'] }
  , { kind := .consListClose, captured := literal ['>'] }
  , { kind := .coreference, captured := both (exactly '#') (atLeastOnce symbolChar) }
  , { kind := .letterSet
      before := both (exactly '%') (both (many whiteSpace) (exactly '('))
      captured := many anyChar
      after := both (exactly ')') (both (many whiteSpace) lineEnd) }
  , { kind := .affixMarker
      before := exactly '%'
      captured := either (literal ['p', 'r', 'e', 'f', 'i', 'x']) (literal ['s', 'u', 'f', 'f', 'i', 'x']) }
  , { kind := .affixPattern
      before := exactly '('
      captured := both (atLeastOnce (noneOf [' '])) afterFirstField.captured
      after := afterFirstField.after }
  , { kind := .slash, captured := literal ['/'] }
  , { kind := .identifier, captured := atLeastOnce symbolChar } ]

/-- The kind of the first entry of the table that matches here, with its match. -/
def tableFirst? (s : List Char) : Option (TokenKind × Match) :=
  table.findSome? fun rule => (rule.first? s).map (rule.kind, ·)

end TokenRule

end TypeDescription
