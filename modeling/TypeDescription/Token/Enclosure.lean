import TypeDescription.Error
import TypeDescription.Token

/-!
Docstrings and block comments, the tokens that may reach over several lines. Inside them a
backslash covers itself and the character after it, whatever that is, so a covered delimiter
closes nothing. Closing delimiters hold no line feed and a line end is never half covered, so the
search can be made line by line: what a line leaves unclosed is text, and the next line is
searched afresh.
-/

namespace TypeDescription

/-- The two forms of text that are enclosed by delimiters of several characters. -/
inductive Enclosure where
  | docstring
  | comment
  deriving DecidableEq, Repr

namespace Enclosure

/-- The kind of token that an enclosed text makes. -/
def kind : Enclosure → TokenKind
  | docstring => .docstring
  | comment => .blockComment

/-- The delimiter before the text. -/
def opener : Enclosure → List Char
  | docstring => ['"', '"', '"']
  | comment => ['#', '|']

/-- The delimiter after the text. -/
def closer : Enclosure → List Char
  | docstring => ['"', '"', '"']
  | comment => ['|', '#']

/-- The fault of a text that is never closed. -/
def unterminated : Enclosure → Cause
  | docstring => .unterminatedDocstring
  | comment => .unterminatedComment

/-- The enclosure that opens here, and what follows its opening delimiter. -/
def opening? (s : List Char) : Option (Enclosure × List Char) :=
  match docstring.opener.isPrefixOf? s with
  | some rest => some (docstring, rest)
  | none => (comment.opener.isPrefixOf? s).map (comment, ·)

end Enclosure

/-- The text before the first delimiter that no backslash covers, and what follows the delimiter. -/
def upToCloser (closer : List Char) : List Char → Option (List Char × List Char)
  | [] => none
  | ['\\'] => none
  | '\\' :: c :: rest =>
    (upToCloser closer rest).map fun (text, after) => ('\\' :: c :: text, after)
  | c :: rest =>
    match closer.isPrefixOf? (c :: rest) with
    | some after => some ([], after)
    | none => (upToCloser closer rest).map fun (text, after) => (c :: text, after)

end TypeDescription
