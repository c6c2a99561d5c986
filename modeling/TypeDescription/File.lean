import TypeDescription.Stream

/-!
Files, as the reader meets them. A file is what opening a path gives: a refusal, or bytes, after
which reading may still fail, as it does at once for a directory.
-/

namespace TypeDescription

/-- What opening a path gives. The reasons are the system's own texts. -/
inductive File where
  | refused (reason : String)
  | opened (bytes : List UInt8) (failure : Option String)
  deriving DecidableEq, Repr

namespace File

/-- Reads the file at a path. Its name, for errors, is its path, unless it is given another. -/
def read (options : ReadOptions) (path : String) (file : File) : Except Error Outcome :=
  let name := options.name.getD path
  match file with
  | refused reason => .error ((Error.ofCause (.unreadable reason)).withSource name)
  | opened bytes failure =>
    .ok ((Source.ofBytes bytes failure).read { options with name := some name })

/-- The text of a file; nothing if it cannot be read to its end or is no text. -/
def text? : File → Option String
  | opened bytes none => String.fromUTF8? ⟨bytes.toArray⟩
  | _ => none

end File

end TypeDescription
