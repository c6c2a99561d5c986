/-!
What can go wrong, and where. A `Cause` says which rule was broken and carries what its message
shows; an `Error` adds the place, as far as it is known. The part of the reader that finds a fault
knows its line, the definition around it knows its name, and the source knows its own: each adds
what it knows on the way out, and what is known already is never replaced.
-/

namespace TypeDescription

/-- The type that marks a list as open: its tail is not known. -/
def openListType : String := "*list*"

/-- The type that marks the end of a list. -/
def emptyListType : String := "*null*"

/-- The rule that was broken. -/
inductive Cause where
  /-- No token starts with the character at this column of this line; columns count characters
  and start at zero. -/
  | unexpectedCharacter (line : String) (column : Nat)
  | unterminatedDocstring
  | unterminatedComment
  | missingOperator
  | missingDot
  /-- A token that nothing at the top level starts with, as it is written. -/
  | unexpectedToken (token : String)
  | missingTerm
  | missingFeatureName
  | missingFeatureEnd
  | missingItemEnd
  | missingListEnd
  | unboundedDiffList
  | missingSupertypes
  /-- A coreference at a single path. The coreference inside a difference list has no tag. -/
  | solitaryCoreference (tag : Option String) (path : String)
  | closedList
  | invalidEmptyList
  | unexpectedEnd
  /-- The source could not be read; the reason is the system's own text. -/
  | unreadable (reason : String)
  deriving DecidableEq, Repr

namespace Cause

/-- The message of a cause. Under a line with an unexpected character a caret points at it. -/
def message : Cause → String
  | unexpectedCharacter line column =>
    "Syntax error:\n  " ++ line ++ "\n  " ++ String.ofList (List.replicate column ' ') ++ "^"
  | unterminatedDocstring => "Unterminated docstring"
  | unterminatedComment => "Unterminated block comment"
  | missingOperator => "Expected: := or :+"
  | missingDot => "Expected: ."
  | unexpectedToken token => "Syntax error; unexpected token: " ++ token
  | missingTerm => "Expected a TDL conjunction term"
  | missingFeatureName => "Expected a feature name"
  | missingFeatureEnd => "Expected: , or ]"
  | missingItemEnd => "Expected: comma or end of list"
  | missingListEnd => "Expected: end of list"
  | unboundedDiffList => "Diff-lists cannot have an open or dotted tail"
  | missingSupertypes => "Type definition requires supertypes"
  | solitaryCoreference tag path =>
    let shown := match tag with
      | some tag => "#" ++ tag
      | none => "(diff-list)"
    "Solitary coreference: " ++ shown ++ " at path '" ++ path ++ "'"
  | closedList => "Cannot append to a closed list"
  | invalidEmptyList => "Empty list must be " ++ openListType ++ " or " ++ emptyListType
  | unexpectedEnd => "Unexpected termination"
  | unreadable reason => "I/O error: " ++ reason

end Cause

/-- A cause and what is known of its place. -/
structure Error where
  cause : Cause
  line : Option Nat
  source : Option String
  identifier : Option String
  deriving DecidableEq, Repr

namespace Error

/-- An error whose place is not known. -/
def ofCause (cause : Cause) : Error :=
  { cause, line := none, source := none, identifier := none }

/-- An error on a line. -/
def onLine (cause : Cause) (line : Nat) : Error :=
  { cause, line := some line, source := none, identifier := none }

/-- Adds the line, unless it is known. -/
def withLine (e : Error) (line : Nat) : Error :=
  { e with line := some (e.line.getD line) }

/-- Adds the name of the source, unless it is known. -/
def withSource (e : Error) (source : String) : Error :=
  { e with source := some (e.source.getD source) }

/-- Adds the definition that was being read, unless it is known. -/
def withIdentifier (e : Error) (identifier : String) : Error :=
  { e with identifier := some (e.identifier.getD identifier) }

/-- The message of an error without its place. -/
def message (e : Error) : String := e.cause.message

/-- An error in full: its place, its message and the definition it was found in. -/
def text (e : Error) : String :=
  let place := match e.source, e.line with
    | some source, some line => source ++ ":" ++ toString line ++ ": "
    | some source, none => source ++ ": "
    | none, some line => "line " ++ toString line ++ ": "
    | none, none => ""
  let definition := match e.identifier with
    | some identifier => " (in definition of '" ++ identifier ++ "')"
    | none => ""
  place ++ e.message ++ definition

end Error

end TypeDescription
