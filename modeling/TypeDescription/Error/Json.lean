import TypeDescription.Error
import TypeDescription.Json
import TypeDescription.Warning

/-!
Errors and warnings as JSON. A cause is named; one that carries data is an object of a single member
with the data under its name.
-/

namespace TypeDescription

namespace Cause

/-- The name of a cause. -/
def name : Cause → String
  | unexpectedCharacter .. => "UnexpectedCharacter"
  | unterminatedDocstring => "UnterminatedDocString"
  | unterminatedComment => "UnterminatedBlockComment"
  | missingOperator => "ExpectedDefinitionOperator"
  | missingDot => "ExpectedDot"
  | unexpectedToken _ => "UnexpectedToken"
  | missingTerm => "ExpectedTerm"
  | missingFeatureName => "ExpectedFeatureName"
  | missingFeatureEnd => "ExpectedCommaOrAvmClose"
  | missingItemEnd => "ExpectedCommaOrListEnd"
  | missingListEnd => "ExpectedListEnd"
  | unboundedDiffList => "InvalidDiffListTail"
  | missingSupertypes => "MissingSupertypes"
  | solitaryCoreference .. => "SolitaryCoreference"
  | closedList => "ClosedList"
  | invalidEmptyList => "InvalidEmptyListEnd"
  | unexpectedEnd => "UnexpectedTermination"
  | unreadable _ => "Io"

/-- A cause as JSON. -/
def json (cause : Cause) : Json :=
  match cause with
  | unexpectedCharacter line column =>
    .object [(cause.name, .object [("line", .string line), ("column", .count column)])]
  | unexpectedToken token => .object [(cause.name, .string token)]
  | solitaryCoreference tag path =>
    .object [(cause.name, .object [("tag", .ofOption tag), ("path", .string path)])]
  | unreadable reason => .object [(cause.name, .string reason)]
  | _ => .string cause.name

end Cause

/-- An error as JSON. -/
def Error.json (e : Error) : Json :=
  .object
    [ ("kind", e.cause.json)
    , ("line_number", (e.line.map Json.count).getD .null)
    , ("source_name", .ofOption e.source)
    , ("identifier", .ofOption e.identifier) ]

/-- The name of an old spelling. -/
def OldSpelling.name : OldSpelling → String
  | subtypeOperator => "SubtypeOperator"
  | quotedSymbol => "QuotedSymbol"

/-- A warning as JSON. -/
def Warning.json (w : Warning) : Json :=
  .object
    [ ("kind", .string w.spelling.name)
    , ("line_number", .count w.line)
    , ("identifier", .ofOption w.identifier) ]

end TypeDescription
