/-!
A source as its reader sees it: the lines that can be read, each with its terminator, and the
failure that follows them, if reading fails. A line ends after a line feed; a carriage return just
before that line feed is dropped, so the two conventions for line ends read alike. The last line
may lack its line feed, unless a failure follows: then the line being read is lost.
-/

namespace TypeDescription

/-- Cuts a sequence after each element that satisfies `isLast`. No piece is empty, and the pieces
put together are the sequence. -/
def splitAfter (isLast : α → Bool) : List α → List (List α)
  | [] => []
  | a :: rest =>
    if isLast a then
      [a] :: splitAfter isLast rest
    else
      match splitAfter isLast rest with
      | [] => [[a]]
      | piece :: pieces => (a :: piece) :: pieces

theorem flatten_splitAfter (isLast : α → Bool) (s : List α) :
    (splitAfter isLast s).flatten = s := by
  induction s with
  | nil => rfl
  | cons a rest ih =>
    rw [splitAfter]
    split
    · simp [ih]
    · split
      · next h => rw [h] at ih; simp_all
      · next piece pieces h => rw [h] at ih; simp_all

/-- The pieces that end as they should; only the last can fail to. -/
def completePieces (isLast : α → Bool) (pieces : List (List α)) : List (List α) :=
  pieces.filter fun piece => piece.getLast?.any isLast

/-- A line with a carriage return and a line feed at its end loses the carriage return. -/
def dropReturn : List Char → List Char
  | ['\r', '\n'] => ['\n']
  | c :: rest => c :: dropReturn rest
  | [] => []

/-- A line without its line feed. -/
def withoutFeed (line : List Char) : List Char := line.takeWhile (· ≠ '\n')

/-- A text to be read line by line. -/
structure Source where
  /-- The lines that can be read, terminators included. -/
  lines : List (List Char)
  /-- Why the line after them cannot be read. -/
  failure : Option String
  deriving DecidableEq, Repr

namespace Source

/-- The lines of a text. -/
def textLines (text : List Char) : List (List Char) :=
  (splitAfter (· == '\n') text).map dropReturn

/-- A text that can be read to its end. -/
def ofText (text : String) : Source :=
  { lines := textLines text.toList, failure := none }

/-- Why a line of bytes that is no text cannot be read. -/
def notText : String := "stream did not contain valid UTF-8"

/-- The source made of lines of bytes. The first one that is no text ends it. -/
def ofByteLines : List (List UInt8) → Option String → Source
  | [], failure => { lines := [], failure }
  | bytes :: rest, failure =>
    match String.fromUTF8? ⟨bytes.toArray⟩ with
    | some line =>
      let later := ofByteLines rest failure
      { later with lines := dropReturn line.toList :: later.lines }
    | none => { lines := [], failure := some notText }

/-- The source made of bytes, after which reading may fail. -/
def ofBytes (bytes : List UInt8) (failure : Option String) : Source :=
  let pieces := splitAfter (· == 10) bytes
  match failure with
  | none => ofByteLines pieces none
  | some reason => ofByteLines (completePieces (· == 10) pieces) (some reason)

/-- A source that cannot be read at all. -/
def failing (reason : String) : Source := { lines := [], failure := some reason }

end Source

end TypeDescription
