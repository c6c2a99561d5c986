import TypeDescription.Report

/-!
The command line: which files are to be reported, and how. Flags and paths may be mixed. A flag is
a letter after one hyphen, where several letters may stand together, or its name after two hyphens.
The argument `--` ends the flags: all arguments after it are paths. A hyphen alone is a path.
-/

namespace TypeDescription

/-- The flags of the command line. -/
inductive Flag where
  | help
  | comments
  | quiet
  | summary
  deriving DecidableEq, Repr

namespace Flag

/-- The flags in the order of their declaration. -/
def all : List Flag := [help, comments, quiet, summary]

/-- The name of a flag. -/
def name : Flag → String
  | help => "help"
  | comments => "comments"
  | quiet => "quiet"
  | summary => "summary"

/-- The letter of a flag. -/
def letter : Flag → Char
  | help => 'h'
  | comments => 'c'
  | quiet => 'q'
  | summary => 's'

/-- The flag with a letter. -/
def ofLetter? (letter : Char) : Option Flag := all.find? fun flag => flag.letter = letter

/-- The flag with a name; its letter is a name, too. -/
def ofName? (name : String) : Option Flag :=
  all.find? fun flag => flag.name = name || String.singleton flag.letter = name

end Flag

/-- What can be wrong with the arguments. -/
inductive Misuse where
  | unknownFlag (name : String)
  | repeatedFlag (flag : Flag)
  /-- A flag with a value, as in `--quiet=yes`. -/
  | valueGiven (name : String)
  | noPath
  deriving DecidableEq, Repr

namespace Misuse

/-- The message for a misuse. -/
def message : Misuse → String
  | unknownFlag name => "Unrecognized option: '" ++ name ++ "'"
  | repeatedFlag flag => "Option '" ++ flag.name ++ "' given more than once"
  | valueGiven name => "Option '" ++ name ++ "' does not take an argument"
  | noPath => "Too few arguments given."

end Misuse

/-- The flags and the paths among the arguments, in order. -/
structure Arguments where
  flags : List Flag
  paths : List String
  deriving DecidableEq, Repr

namespace Arguments

/-- The flag after two hyphens. -/
def readName (text : List Char) : Except Misuse Flag :=
  let name := String.ofList (text.takeWhile (· ≠ '='))
  match Flag.ofName? name with
  | none => .error (.unknownFlag name)
  | some flag => if text.contains '=' then .error (.valueGiven name) else .ok flag

/-- The flags after one hyphen. -/
def readLetters : List Char → Except Misuse (List Flag)
  | [] => .ok []
  | letter :: rest =>
    match Flag.ofLetter? letter with
    | none => .error (.unknownFlag (String.singleton letter))
    | some flag => (readLetters rest).map (flag :: ·)

/-- The flags in an argument that is not a path. -/
def readFlags? : List Char → Option (Except Misuse (List Flag))
  | '-' :: '-' :: name => some ((readName name).map ([·]))
  | '-' :: letter :: rest => some (readLetters (letter :: rest))
  | _ => none

/-- Sorts the arguments. The first flag that is not known ends it. -/
def sort : List String → Except Misuse Arguments
  | [] => .ok { flags := [], paths := [] }
  | argument :: rest =>
    if argument = "--" then
      .ok { flags := [], paths := rest }
    else
      match readFlags? argument.toList with
      | none => (sort rest).map fun later => { later with paths := argument :: later.paths }
      | some flags => do
        let flags ← flags
        (sort rest).map fun later => { later with flags := flags ++ later.flags }

/-- Sorts the arguments and checks that no flag is repeated. -/
def read (arguments : List String) : Except Misuse Arguments := do
  let sorted ← sort arguments
  match Flag.all.find? fun flag => 1 < sorted.flags.count flag with
  | some flag => .error (.repeatedFlag flag)
  | none => .ok sorted

/-- The settings that the flags make. -/
def settings (arguments : Arguments) : Settings :=
  { comments := arguments.flags.contains .comments
    quiet := arguments.flags.contains .quiet
    summary := arguments.flags.contains .summary }

end Arguments

namespace CommandLine

/-- How the program is to be called. -/
def usage : String := "Usage: tdlparse [-c] [-q] [-s] <file.tdl> ...\n"

/-- The report of a call without paths to report on. -/
def usageReport (misuse : Option Misuse) : Report :=
  { output := ""
    diagnostics := (match misuse with
      | some misuse => misuse.message ++ "\n"
      | none => "") ++ usage
    failed := true }

/-- The report of the files at several paths, up to the first one that fails. -/
def reportAll (settings : Settings) (files : String → File) : List String → Report
  | [] => .empty
  | path :: rest => ((files path).report settings path).followedBy (reportAll settings files rest)

/-- The report that arguments ask for. -/
def run (files : String → File) (arguments : List String) : Report :=
  match Arguments.read arguments with
  | .error misuse => usageReport (some misuse)
  | .ok arguments =>
    if arguments.flags.contains .help then usageReport none
    else if arguments.paths.isEmpty then usageReport (some .noPath)
    else reportAll arguments.settings files arguments.paths

/-- The exit code for a report. -/
def exitCode (report : Report) : Nat := if report.failed then 1 else 0

end CommandLine

end TypeDescription
