import TypeDescription.CommandLine
import TypeDescription.FileTree

/-!
The program: it reads the files that the arguments name, and prints the report on them.
-/

namespace TypeDescription.Program

/-- What the system says about a failure. -/
def systemText : IO.Error → String
  | .alreadyExists _ code details | .inappropriateType _ code details
  | .invalidArgument _ code details | .noFileOrDirectory _ code details
  | .noSuchThing _ code details | .permissionDenied _ code details
  | .resourceExhausted _ code details | .interrupted _ code details
  | .otherError code details | .resourceBusy code details | .resourceVanished code details
  | .unsupportedOperation code details | .hardwareFault code details
  | .unsatisfiedConstraints code details | .illegalOperation code details
  | .protocolError code details | .timeExpired code details =>
    details ++ " (os error " ++ toString code ++ ")"
  | other => toString other

/-- Reads what is left of an opened file, after the bytes read already. -/
partial def readRest (handle : IO.FS.Handle) (bytes : ByteArray) : IO File := do
  match ← (handle.read 65536).toBaseIO with
  | .error e => pure (.opened bytes.toList (some (systemText e)))
  | .ok chunk =>
    if chunk.isEmpty then pure (.opened bytes.toList none) else readRest handle (bytes ++ chunk)

/-- Opens and reads the file at a path. -/
def readFile (path : String) : IO File := do
  match ← (IO.FS.Handle.mk path .read).toBaseIO with
  | .error e => pure (.refused (systemText e))
  | .ok handle => readRest handle .empty

/-- Prints the report that the arguments ask for. The exit code says whether it fails. -/
def run (arguments : List String) : IO UInt32 := do
  let paths := match Arguments.read arguments with
    | .ok sorted => sorted.paths
    | .error _ => []
  let files ← paths.mapM fun path => do pure (path, ← readFile path)
  let report := CommandLine.run
    (fun path => (files.lookup path).getD (.refused FileTree.missing)) arguments
  (← IO.getStdout).putStr report.output
  (← IO.getStderr).putStr report.diagnostics
  pure (CommandLine.exitCode report).toUInt32

end TypeDescription.Program

/-- The program. -/
def main (arguments : List String) : IO UInt32 := TypeDescription.Program.run arguments
