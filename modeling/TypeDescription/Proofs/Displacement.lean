import TypeDescription.Proofs.Relocation
import TypeDescription.Token.Scan

/-!
What happens to a text when lines are put in front of it. Line numbers are the only thing in a
token, an event, a warning or an error that says where it stands, and neither the scanner nor the
reader decides anything by them. So scanning and reading from a later line gives what they give
from the first line, with every line number moved.
-/

namespace TypeDescription

/-! ## Moved by lines -/

/-- A token some lines further down. -/
def Token.moved (lines : Nat) (t : Token) : Token := t.relocated (· + lines)

/-- An error some lines further down. -/
def Error.moved (lines : Nat) (e : Error) : Error := e.relocated (· + lines)

/-- A reader whose last token is some lines further down. -/
def Reader.moved (lines : Nat) (reader : Reader) : Reader := reader.relocated (· + lines)

namespace Outcome

/-- The outcome of a text some lines further down. -/
def moved (lines : Nat) (o : Outcome) : Outcome := o.relocated (· + lines)

/-- What two texts yield, one after the other, if the first is read to its end. -/
def followedBy (first second : Outcome) : Outcome :=
  { events := first.events ++ second.events
    warnings := first.warnings ++ second.warnings
    error := second.error }

end Outcome

private def Unclosed.moved (lines : Nat) (u : Unclosed) : Unclosed :=
  { u with line := u.line + lines }

private def LineScan.moved (lines : Nat) (scan : LineScan) : LineScan :=
  { tokens := scan.tokens.map (Token.moved lines)
    ending := match scan.ending with
      | .ok unclosed => .ok (unclosed.map (Unclosed.moved lines))
      | .error fault => .error (fault.moved lines) }

/-- A scan some lines further down. -/
def Scan.moved (lines : Nat) (scan : Scan) : Scan :=
  { tokens := scan.tokens.map (Token.moved lines)
    error := scan.error.map (Error.moved lines)
    linesRead := scan.linesRead + lines }

/-! ## Scanning -/

private theorem walk_moved (lines number : Nat) (line rest : List Char) (covered : Nat) :
    walk (number + lines) line rest covered = (walk number line rest covered).moved lines := by
  fun_induction walk number line rest covered with
  | case1 => rfl
  | case2 c rest covered ih => rw [walk, ih]
  | case3 c rest white ih => rw [walk, if_pos white, ih]
  | case4 c rest white enclosure body opened unclosed text after closed ih =>
    rw [walk, if_neg white, opened]
    simp only [closed]
    rw [ih]
    rfl
  | case5 c rest white enclosure body opened unclosed still =>
    rw [walk, if_neg white, opened]
    simp only [still]
    rfl
  | case6 c rest white opened kind text after found ih =>
    rw [walk, if_neg white, opened]
    simp only [found]
    rw [ih]
    rfl
  | case7 c rest white opened found =>
    rw [walk, if_neg white, opened]
    simp only [found]
    rfl

private theorem scan_line_moved (lines number : Nat) (line : List Char) (unclosed : Option Unclosed) :
    scanLine (number + lines) line (unclosed.map (Unclosed.moved lines)) =
      (scanLine number line unclosed).moved lines := by
  cases unclosed with
  | none => exact walk_moved lines number line line 0
  | some unclosed =>
    cases closed : upToCloser unclosed.enclosure.closer line with
    | none => simp only [scanLine, Option.map_some, Unclosed.moved, closed]; rfl
    | some found =>
      simp only [scanLine, Option.map_some, Unclosed.moved, closed, walk_moved]
      rfl

private theorem end_fault_moved (lines : Nat) (failure : Option String) (read : Nat)
    (unclosed : Option Unclosed) :
    endFault failure (read + lines) (unclosed.map (Unclosed.moved lines)) =
      (endFault failure read unclosed).map (Error.moved lines) := by
  cases failure with
  | none => cases unclosed <;> rfl
  | some reason =>
    have next : read + lines + 1 = read + 1 + lines := by omega
    simp only [endFault, next]
    rfl

private theorem scan_lines_moved (lines : Nat) (failure : Option String) (read : Nat)
    (unclosed : Option Unclosed) (text : List (List Char)) :
    scanLines failure (read + lines) (unclosed.map (Unclosed.moved lines)) text =
      (scanLines failure read unclosed text).moved lines := by
  induction text generalizing read unclosed with
  | nil => simp only [scanLines, end_fault_moved]; rfl
  | cons line text ih =>
    have next : read + lines + 1 = read + 1 + lines := by omega
    simp only [scanLines, next, scan_line_moved]
    cases ending : (scanLine (read + 1) line unclosed).ending with
    | error fault => simp only [LineScan.moved, ending]; rfl
    | ok left =>
      simp only [LineScan.moved, ending, ih, Scan.after, Scan.moved, List.map_append]

/-- Lines that are scanned after others give the tokens that they give alone, further down. -/
theorem scan_lines_from (failure : Option String) (read : Nat) (text : List (List Char)) :
    scanLines failure read none text = (scanLines failure 0 none text).moved read := by
  simpa using scan_lines_moved read failure 0 none text

/-! ## Reading -/

/-- Reading tokens further down gives what reading them gives, further down. -/
theorem run_moved (lines : Nat) (fault : Option Error) (reader : Reader) (tokens : List Token) :
    Reader.run (fault.map (Error.moved lines)) (reader.moved lines) (tokens.map (Token.moved lines)) =
      (Reader.run fault reader tokens).moved lines :=
  run_relocated (· + lines) fault reader tokens

end TypeDescription
