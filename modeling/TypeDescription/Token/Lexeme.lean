import TypeDescription.Token
import TypeDescription.Unicode.WhiteSpace

/-!
The tokens that lie on one line, as a table of rules. A rule looks at the start of what is left of
a line and answers with the text of its token and what follows the token; `Lexeme.first?` takes the
first rule of the table that applies. So the order of the table matters: a rule stands before every
rule whose tokens begin its own (`<!` before `<`, `...` before `.`).
-/

namespace TypeDescription

/-- The text of a token, without its delimiters, and what follows the token on its line. -/
abbrev Match := List Char × List Char

namespace Lexeme

/-- The characters that end a symbol, white space apart. -/
def breakChars : List Char :=
  [ '!', '"', '#', '$', '&', '\'', '(', ')', ',', '.', '/', ':', ';', '<', '=', '>', '[', ']', '^' ]

/-- A symbol is made of all characters but white space and the break characters. -/
def isSymbolChar (c : Char) : Bool := !Unicode.isWhiteSpace c && !breakChars.contains c

/-- Exactly these characters. -/
def literal (spelled : List Char) (s : List Char) : Option Match :=
  (spelled.isPrefixOf? s).map (spelled, ·)

/-- One or more symbol characters, as many as there are. -/
def symbol (s : List Char) : Option Match :=
  match s.takeWhile isSymbolChar with
  | [] => none
  | text => some (text, s.dropWhile isSymbolChar)

/-- The text before the first closing character that no backslash covers. A backslash covers the
character after it, which must be on the same line. -/
def upTo (closer : Char) : List Char → Option Match
  | [] => none
  | ['\\'] => none
  | '\\' :: c :: rest =>
    if c = '\n' then none
    else (upTo closer rest).map fun (text, after) => ('\\' :: c :: text, after)
  | c :: rest =>
    if c = closer then some ([], rest)
    else (upTo closer rest).map fun (text, after) => (c :: text, after)

/-- A text between two characters. -/
def between (opener closer : Char) : List Char → Option Match
  | c :: rest => if c = opener then upTo closer rest else none
  | [] => none

/-- A semicolon and the rest of its line. -/
def lineComment : List Char → Option Match
  | ';' :: rest => some (rest.takeWhile (· ≠ '\n'), rest.dropWhile (· ≠ '\n'))
  | _ => none

/-- A symbol after an apostrophe, which is not part of its text. -/
def quotedSymbol : List Char → Option Match
  | '\'' :: rest => symbol rest
  | _ => none

/-- A symbol after a number sign, which is part of its text. -/
def coreference : List Char → Option Match
  | '#' :: rest => (symbol rest).map fun (text, after) => ('#' :: text, after)
  | _ => none

/-- Everything between a parenthesis and the last closing one of the line, if only white space
follows that. The white space belongs to the token. -/
def letterSet : List Char → Option Match
  | '%' :: rest =>
    match rest.dropWhile Unicode.isWhiteSpace with
    | '(' :: body =>
      match body.reverse.dropWhile Unicode.isWhiteSpace with
      | ')' :: before => some (before.reverse, [])
      | _ => none
    | _ => none
  | _ => none

/-- The word after the percent sign says on which side of a word an affix goes. -/
def affixMarker : List Char → Option Match
  | '%' :: rest =>
    match literal ['p', 'r', 'e', 'f', 'i', 'x'] rest with
    | some found => some found
    | none => literal ['s', 'u', 'f', 'f', 'i', 'x'] rest
  | _ => none

/-- The first answer for a count from `n` down to one. -/
def longest (answer : Nat → Option α) : Nat → Option α
  | 0 => none
  | n + 1 =>
    match answer (n + 1) with
    | some found => some found
    | none => longest answer n

/-- Puts the first `n` characters back in front of what was read after them. -/
def keeping (rule : List Char → Option Match) (s : List Char) (n : Nat) : Option Match :=
  (rule (s.drop n)).map fun (text, after) => (s.take n ++ text, after)

/-- The longest run of characters that may stand in the second field of an affix pattern: no space,
no parenthesis that closes the pattern, and a backslash only with the character that it covers. -/
def fieldChars : List Char → Match
  | [] => ([], [])
  | ['\\'] => ([], ['\\'])
  | '\\' :: c :: rest =>
    if c = '\n' then ([], '\\' :: c :: rest)
    else ('\\' :: c :: (fieldChars rest).1, (fieldChars rest).2)
  | c :: rest =>
    if c = ' ' ∨ c = ')' then ([], c :: rest)
    else (c :: (fieldChars rest).1, (fieldChars rest).2)

/-- The second field of an affix pattern and the parenthesis after it. -/
def secondField (s : List Char) : Option Match :=
  match fieldChars s with
  | (c :: text, ')' :: after) => some (c :: text, after)
  | _ => none

/-- The white space between the fields of an affix pattern, as much of it as leaves a second field,
and that field. -/
def gapAndField (s : List Char) : Option Match :=
  longest (keeping secondField s) (s.takeWhile Unicode.isWhiteSpace).length

/-- Two fields in parentheses. The first is as long as it can be: it holds no space, but it may
hold other white space and parentheses. -/
def affixPattern : List Char → Option Match
  | '(' :: rest => longest (keeping gapAndField rest) (rest.takeWhile (· ≠ ' ')).length
  | _ => none

/-- The rules in the order in which they are tried. -/
def rules : List (TokenKind × (List Char → Option Match)) :=
  [ (.lineComment, lineComment)
  , (.string, between '"' '"')
  , (.quotedSymbol, quotedSymbol)
  , (.regex, between '^' '$')
  , (.definitionOperator, literal [':', '='])
  , (.definitionOperator, literal [':', '<'])
  , (.addendumOperator, literal [':', '+'])
  , (.ellipsis, literal ['.', '.', '.'])
  , (.dot, literal ['.'])
  , (.ampersand, literal ['&'])
  , (.comma, literal [','])
  , (.avmOpen, literal ['['])
  , (.diffListOpen, literal ['<', '!'])
  , (.consListOpen, literal ['<'])
  , (.avmClose, literal [']'])
  , (.diffListClose, literal ['!', '>'])
  , (.consListClose, literal ['>'])
  , (.coreference, coreference)
  , (.letterSet, letterSet)
  , (.affixMarker, affixMarker)
  , (.affixPattern, affixPattern)
  , (.slash, literal ['/'])
  , (.identifier, symbol) ]

/-- The kind of the token that starts here, its text, and what follows it. -/
def first? (s : List Char) : Option (TokenKind × Match) :=
  rules.findSome? fun (kind, rule) => (rule s).map (kind, ·)

end Lexeme

end TypeDescription
