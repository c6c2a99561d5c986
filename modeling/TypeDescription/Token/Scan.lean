import TypeDescription.Source
import TypeDescription.Token.Enclosure
import TypeDescription.Token.Lexeme

/-!
From the lines of a source to its tokens. Each line is walked over once: white space is passed,
and at any other character an enclosure or a lexeme must start. All that one line hands to the next
is the enclosure that it leaves unclosed. The first fault ends the scan; the tokens before it stand.
-/

namespace TypeDescription

/-- An enclosure whose closing delimiter has not been met, the line of its opening delimiter and
the text so far. -/
structure Unclosed where
  enclosure : Enclosure
  line : Nat
  text : List Char
  deriving DecidableEq, Repr

namespace Unclosed

/-- The token of an enclosure that closes on the line `lastLine`, after `text` on that line. -/
def token (unclosed : Unclosed) (text : List Char) (lastLine : Nat) : Token :=
  { kind := unclosed.enclosure.kind
    text := String.ofList (unclosed.text ++ text)
    line := unclosed.line
    lastLine }

end Unclosed

/-- The tokens of a line, and how it ends: with a fault, or with what it leaves unclosed. -/
structure LineScan where
  tokens : List Token
  ending : Except Error (Option Unclosed)

namespace LineScan

/-- A token before the others of a line. -/
def after (token : Token) (scan : LineScan) : LineScan :=
  { scan with tokens := token :: scan.tokens }

end LineScan

/-- The fault of a line whose remainder starts with a character that starts no token. -/
def unexpectedAt (number : Nat) (line rest : List Char) : Error :=
  .onLine
    (.unexpectedCharacter (String.ofList (withoutFeed line)) (line.length - rest.length))
    number

/-- Walks over the remainder of a line, the first `covered` characters of which belong to the token
before. -/
def walk (number : Nat) (line : List Char) : List Char → Nat → LineScan
  | [], _ => { tokens := [], ending := .ok none }
  | _ :: rest, covered + 1 => walk number line rest covered
  | c :: rest, 0 =>
    if Unicode.isWhiteSpace c then
      walk number line rest 0
    else
      match Enclosure.opening? (c :: rest) with
      | some (enclosure, body) =>
        let unclosed : Unclosed := { enclosure, line := number, text := [] }
        match upToCloser enclosure.closer body with
        | some (text, after) =>
          (walk number line rest (rest.length - after.length)).after (unclosed.token text number)
        | none => { tokens := [], ending := .ok (some { unclosed with text := body }) }
      | none =>
        match Lexeme.first? (c :: rest) with
        | some (kind, text, after) =>
          (walk number line rest (rest.length - after.length)).after
            { kind, text := String.ofList text, line := number, lastLine := number }
        | none => { tokens := [], ending := .error (unexpectedAt number line (c :: rest)) }

/-- Scans one line, on which an enclosure may still be unclosed. -/
def scanLine (number : Nat) (line : List Char) : Option Unclosed → LineScan
  | none => walk number line line 0
  | some unclosed =>
    match upToCloser unclosed.enclosure.closer line with
    | some (text, after) =>
      (walk number line line (line.length - after.length)).after (unclosed.token text number)
    | none =>
      { tokens := [], ending := .ok (some { unclosed with text := unclosed.text ++ line }) }

/-- The tokens of a source, the fault that ended it, if any, and the number of lines read until
then. -/
structure Scan where
  tokens : List Token
  error : Option Error
  linesRead : Nat
  deriving DecidableEq, Repr

namespace Scan

/-- Tokens before those of a scan. -/
def after (tokens : List Token) (scan : Scan) : Scan :=
  { scan with tokens := tokens ++ scan.tokens }

end Scan

/-- The fault, if any, of a source whose lines are all read: its failure is met on the next line,
and an enclosure that is still unclosed is blamed on the line where it opened. -/
def endFault (failure : Option String) (read : Nat) (unclosed : Option Unclosed) : Option Error :=
  match failure, unclosed with
  | some reason, _ => some (.onLine (.unreadable reason) (read + 1))
  | none, some unclosed => some (.onLine unclosed.enclosure.unterminated unclosed.line)
  | none, none => none

/-- Scans the lines that follow the first `read` ones. -/
def scanLines (failure : Option String) : Nat → Option Unclosed → List (List Char) → Scan
  | read, unclosed, [] =>
    { tokens := [], error := endFault failure read unclosed, linesRead := read }
  | read, unclosed, line :: lines =>
    let scan := scanLine (read + 1) line unclosed
    match scan.ending with
    | .ok unclosed => (scanLines failure (read + 1) unclosed lines).after scan.tokens
    | .error fault => { tokens := scan.tokens, error := some fault, linesRead := read + 1 }

namespace Source

/-- The tokens of a source, comments included. -/
def scan (source : Source) : Scan := scanLines source.failure 0 none source.lines

end Source

end TypeDescription
