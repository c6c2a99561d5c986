import TypeDescription.Error
import TypeDescription.Unicode.WhiteSpace
import TypeDescription.Unicode.Width
import TypeDescription.Warning

/-!
Errors and warnings as they are shown to whoever wrote the source: below the message stands the line
that it is about, and below that line a row of marks as wide as what the line holds. Lines are
counted from one. They are cut from the whole text and not asked of the reader; what ends a line, and
what the last line is, must be the same for both, or another line would be shown than was read.
-/

namespace TypeDescription

/-- A line without the carriage return that may stand at its end. -/
def withoutReturn (line : List Char) : List Char :=
  if line.getLast? = some '\r' then line.dropLast else line

/-- The lines among the pieces between line feeds. No line feed follows the last piece: it is a line
only if it holds anything, and its carriage return is its own. -/
def linesOfPieces : List (List Char) → List (List Char)
  | [] => []
  | [last] => if last = [] then [] else [last]
  | piece :: pieces => withoutReturn piece :: linesOfPieces pieces

/-- The lines of a text as they are shown, without their terminators. -/
def shownLines (text : List Char) : List (List Char) := linesOfPieces (text.splitOn '\n')

/-- A source as it is shown: the path that it was found at, and its lines. -/
structure Listing where
  path : String
  lines : List (List Char)
  deriving DecidableEq, Repr

namespace Listing

/-- The listing of a text. -/
def ofText (path : String) (text : List Char) : Listing :=
  { path, lines := shownLines text }

/-- The line with this number. Number zero means the first line. -/
def line? (listing : Listing) (number : Nat) : Option (List Char) := listing.lines[number - 1]?

/-- A message with the place that it is about. -/
def located (listing : Listing) (message : String) : Option Nat → String
  | some line => message ++ " at " ++ listing.path ++ ":" ++ toString line
  | none => message ++ " in " ++ listing.path

/-- What stands before a line that is shown. -/
def label (number : Nat) : List Char := (toString number ++ "| ").toList

/-- The row below a line: marks below all that stands between its margins, and at least one. -/
def marks (number : Nat) (mark : Char) (line : List Char) : List Char :=
  let indent := line.takeWhile Unicode.isWhiteSpace
  let before := Unicode.displayWidth (label number) + Unicode.displayWidth indent
  List.replicate before ' ' ++
    List.replicate (max 1 (Unicode.displayWidth (Unicode.trim line))) mark

/-- A line and a note below it, after the marks. -/
def noted (number : Nat) (line : List Char) (mark : Char) (note : String) : String :=
  String.ofList (label number ++ line) ++ "\n" ++ String.ofList (marks number mark line) ++ " " ++ note

/-- The line with this number and a note below it. Of a line that does not exist nothing is shown. -/
def underlined (listing : Listing) (number : Nat) (mark : Char) (note : String) : String :=
  match listing.line? number with
  | some line => noted number line mark note
  | none => ""

/-- An error and the line that it blames. The message about an unexpected character shows the line
already. -/
def errorText (listing : Listing) (e : Error) : String :=
  match e.cause, e.line with
  | .unexpectedCharacter .., _ => e.text
  | _, none => e.text
  | _, some line => e.text ++ "\n" ++ listing.underlined line '^' "here"

/-- A warning and its line. -/
def warningText (listing : Listing) (w : Warning) : String :=
  listing.located "Warning" (some w.line) ++ "\n" ++ listing.underlined w.line '-' w.text

end Listing

end TypeDescription
