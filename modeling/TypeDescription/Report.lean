import TypeDescription.Diagnostic
import TypeDescription.File

/-!
What is reported of a source: each event, in full or in one line, then how many there were of each
kind; and, apart from that, the warnings and the error. An error does not take back the events
before it, but there are no totals then.
-/

namespace TypeDescription

namespace Event

/-- An event in full. After all but line comments a line is left blank. -/
def fullText : Event → String
  | definition d => d.text ++ "\n\n"
  | rule r => r.text ++ "\n\n"
  | letterSet text _ => "%(" ++ text ++ ")\n\n"
  | lineComment text _ => ";" ++ text ++ "\n"
  | blockComment text _ => "#|" ++ text ++ "|#\n\n"

end Event

/-- A definition of this kind in a few words. -/
def Definition.summary (kind : String) (d : Definition) : String :=
  kind ++ " " ++ d.identifier ++ " [" ++ " & ".intercalate (d.conjunction.types.map Term.text) ++
    "] " ++ toString d.conjunction.flatFeatures.length ++ " features, " ++
    toString d.coreferences.length ++ " coreferences"

/-- How many events of each kind were met. -/
structure Tally where
  types : Nat
  addenda : Nat
  rules : Nat
  letterSets : Nat
  comments : Nat
  deriving DecidableEq, Repr

namespace Tally

/-- Before the first event. -/
def empty : Tally := { types := 0, addenda := 0, rules := 0, letterSets := 0, comments := 0 }

/-- One more event. -/
def record (tally : Tally) : Event → Tally
  | .definition d =>
    if d.isAddendum then { tally with addenda := tally.addenda + 1 }
    else { tally with types := tally.types + 1 }
  | .rule _ => { tally with rules := tally.rules + 1 }
  | .letterSet .. => { tally with letterSets := tally.letterSets + 1 }
  | .lineComment .. | .blockComment .. => { tally with comments := tally.comments + 1 }

/-- The tally of events that are met one after the other. -/
def ofEvents (events : List Event) : Tally := events.foldl record empty

/-- The line that says how many events of each kind there were at a path. -/
def text (path : String) (tally : Tally) : String :=
  path ++ ": " ++ toString tally.types ++ " types, " ++ toString tally.addenda ++ " addenda, " ++
    toString tally.rules ++ " inflectional rules, " ++ toString tally.letterSets ++ " letter sets, " ++
    toString tally.comments ++ " comments\n"

end Tally

namespace Event

/-- An event in one line. -/
def summary : Event → String
  | definition d => d.summary (if d.isAddendum then "addendum" else "type") ++ "\n"
  | rule r =>
    r.definition.summary "rule" ++ ", " ++ toString r.affixes.length ++ " " ++ r.side.word ++
      " affixes\n"
  | letterSet _ line => "letter-set at line " ++ toString line ++ "\n"
  | lineComment _ line | blockComment _ line => "comment at line " ++ toString line ++ "\n"

end Event

/-- What is wanted in a report. -/
structure Settings where
  /-- Are comments wanted? -/
  comments : Bool
  /-- Are warnings unwanted? -/
  quiet : Bool
  /-- Is one line for each event enough? -/
  summary : Bool
  deriving DecidableEq, Repr

/-- What is printed of an event. -/
def Settings.shown (settings : Settings) (event : Event) : String :=
  if settings.summary then event.summary else event.fullText

/-- A report: what was asked for, what is wrong with it, and whether it ends with a failure. -/
structure Report where
  output : String
  diagnostics : String
  failed : Bool
  deriving DecidableEq, Repr

namespace Report

/-- A report of nothing. -/
def empty : Report := { output := "", diagnostics := "", failed := false }

/-- One report after the other, unless the first one ends with a failure. -/
def followedBy (first second : Report) : Report :=
  if first.failed then first
  else
    { output := first.output ++ second.output
      diagnostics := first.diagnostics ++ second.diagnostics
      failed := second.failed }

/-- The report of events, of the error after them, if there is one, and of warnings. -/
def ofReading (settings : Settings) (listing : Listing) (events : List Event)
    (warnings : List Warning) (error : Option Error) : Report :=
  let shown := events.map settings.shown
  let totals :=
    if settings.summary && error.isNone then (Tally.ofEvents events).text listing.path else ""
  let warnings := if settings.quiet then [] else warnings
  { output := String.join shown ++ totals
    diagnostics :=
      String.join (warnings.map fun w => listing.warningText w ++ "\n\n") ++
        (match error with
          | some e => listing.errorText e ++ "\n"
          | none => "")
    failed := error.isSome }

end Report

namespace File

/-- The listing of a file; it has no lines if the file has no text. -/
def listing (path : String) (file : File) : Listing :=
  Listing.ofText path ((file.text?.getD "").toList)

/-- The report of the file at a path. -/
def report (settings : Settings) (path : String) (file : File) : Report :=
  let listing := file.listing path
  match file.read { name := none, comments := settings.comments } path with
  | .ok o => Report.ofReading settings listing o.events o.warnings o.error
  | .error e => Report.ofReading settings listing [] [] (some e)

end File

end TypeDescription
