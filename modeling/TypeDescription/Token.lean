/-!
Tokens: the smallest pieces of a source that mean something. A token holds the text between its
delimiters, so that `written` can put the delimiters back, and the lines on which it starts and
ends; only docstrings and block comments reach over several lines.
-/

namespace TypeDescription

/-- The kinds of token, and the end of the input, which stands after the last one. -/
inductive TokenKind where
  | docstring
  | blockComment
  | lineComment
  | string
  | quotedSymbol
  | regex
  | definitionOperator
  | addendumOperator
  | ellipsis
  | dot
  | ampersand
  | comma
  | avmOpen
  | diffListOpen
  | consListOpen
  | avmClose
  | diffListClose
  | consListClose
  | coreference
  | letterSet
  | affixMarker
  | affixPattern
  | slash
  | identifier
  | endOfInput
  deriving DecidableEq, Repr

namespace TokenKind

/-- The kinds in the order of their declaration. -/
def all : List TokenKind :=
  [ docstring, blockComment, lineComment, string, quotedSymbol, regex, definitionOperator
  , addendumOperator, ellipsis, dot, ampersand, comma, avmOpen, diffListOpen, consListOpen
  , avmClose, diffListClose, consListClose, coreference, letterSet, affixMarker, affixPattern
  , slash, identifier, endOfInput ]

/-- Comments may stand anywhere and never belong to a definition. -/
def isComment : TokenKind → Bool
  | blockComment | lineComment => true
  | _ => false

/-- What a kind of token is called. -/
def description : TokenKind → String
  | docstring => "docstring"
  | blockComment => "block comment"
  | lineComment => "line comment"
  | string => "string"
  | quotedSymbol => "quoted symbol"
  | regex => "regular expression"
  | definitionOperator => ":="
  | addendumOperator => ":+"
  | ellipsis => "..."
  | dot => "."
  | ampersand => "&"
  | comma => ","
  | avmOpen => "["
  | diffListOpen => "<!"
  | consListOpen => "<"
  | avmClose => "]"
  | diffListClose => "!>"
  | consListClose => ">"
  | coreference => "coreference"
  | letterSet => "letter-set"
  | affixMarker => "affix marker"
  | affixPattern => "affix subpattern"
  | slash => "/"
  | identifier => "identifier"
  | endOfInput => "end of input"

theorem mem_all (kind : TokenKind) : kind ∈ all := by cases kind <;> decide

end TokenKind

/-- A token: its kind, the text between its delimiters, and its first and last line. -/
structure Token where
  kind : TokenKind
  text : String
  line : Nat
  lastLine : Nat
  deriving DecidableEq, Repr

namespace Token

/-- A kind and a text as they are written, delimiters included. -/
def spelling (kind : TokenKind) (text : String) : String :=
  match kind with
  | .docstring => "\"\"\"" ++ text ++ "\"\"\""
  | .blockComment => "#|" ++ text ++ "|#"
  | .lineComment => ";" ++ text
  | .string => "\"" ++ text ++ "\""
  | .quotedSymbol => "'" ++ text
  | .regex => "^" ++ text ++ "$"
  | .letterSet => "%(" ++ text ++ ")"
  | .affixMarker => "%" ++ text
  | .affixPattern => "(" ++ text ++ ")"
  | .endOfInput => TokenKind.endOfInput.description
  | _ => text

/-- A token as it is written. -/
def written (token : Token) : String := spelling token.kind token.text

/-- Is this token a comment? -/
def isComment (token : Token) : Bool := token.kind.isComment

end Token

end TypeDescription
