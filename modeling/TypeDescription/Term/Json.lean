import TypeDescription.Json.Depth
import TypeDescription.Json.Record
import TypeDescription.Term

/-!
Terms as JSON, and back. Everything that a term holds is written, so nothing is lost; the features
of an AVM are an object in their order. Reading takes feature names as they are; where one is
repeated, its first place and its last value count. Reading goes down as far as the JSON value is
deep.
-/

namespace TypeDescription

namespace TypeForm

/-- The name of a type-like alternative. -/
def jsonName : TypeForm → String
  | name => "TypeIdentifier"
  | string => "String"
  | regex => "Regex"

end TypeForm

mutual

/-- A term as JSON. -/
def Term.json : Term → Json
  | .type form text doc =>
    .object [(form.jsonName, .object [("text", .string text), ("docstring", .ofOption doc)])]
  | .coreference tag doc =>
    .object [("Coreference", .object [("tag", .ofOption tag), ("docstring", .ofOption doc)])]
  | .avm a => .object [("Avm", a.json)]
  | .cons ⟨a, lastPath, length, terminated⟩ =>
    .object [("ConsList", .object
      [ ("avm", a.json), ("last_path", .string lastPath), ("len", .count length)
      , ("terminated", .bool terminated) ])]
  | .diff ⟨a, length⟩ => .object [("DiffList", .object [("avm", a.json), ("len", .count length)])]

/-- An AVM as JSON. -/
def Avm.json : Avm → Json
  | ⟨some entries, doc⟩ =>
    .object [("features", .object (jsonOfEntries entries)), ("docstring", .ofOption doc)]
  | ⟨none, doc⟩ => .object [("features", .null), ("docstring", .ofOption doc)]

/-- The entries of an AVM as members of an object. -/
def jsonOfEntries : List (String × List Term) → List (String × Json)
  | [] => []
  | (name, value) :: rest =>
    (name, .object [("terms", .array (jsonOfTerms value))]) :: jsonOfEntries rest

/-- Terms as JSON, one by one. -/
def jsonOfTerms : List Term → List Json
  | [] => []
  | t :: rest => t.json :: jsonOfTerms rest

end

/-- A conjunction as JSON. -/
def Conjunction.json (c : Conjunction) : Json := .object [("terms", .array (jsonOfTerms c))]

/-- A type-like term from its content. -/
def Term.ofTypeJson? (form : TypeForm) (content : Json) : Option Term := do
  match ← content.record? ["text", "docstring"] with
  | [text, doc] =>
    pure (.type form (← Json.required Json.string? text) (← Json.optional Json.string? doc))
  | _ => none

/-- A coreference from its content. -/
def Term.ofCoreferenceJson? (content : Json) : Option Term := do
  match ← content.record? ["tag", "docstring"] with
  | [tag, doc] =>
    pure (.coreference (← Json.optional Json.string? tag) (← Json.optional Json.string? doc))
  | _ => none

/-- The entries of an AVM from the members of an object, read in order. -/
def Features.ofMembers (members : List (String × Conjunction)) : Features :=
  members.foldl (fun (entries : Features) (name, value) => entries.update name fun _ => value) []

/-- An AVM from JSON, by a reader for the values of its features. -/
def Avm.ofJson? (readValue : Json → Option Conjunction) (j : Json) : Option Avm := do
  let readEntries : Json → Option Features
    | .object members => do
      let values ← members.mapM fun (name, value) => do pure (name, ← readValue value)
      pure (Features.ofMembers values)
    | _ => none
  match ← j.record? ["features", "docstring"] with
  | [features, doc] =>
    pure
      { features := ← Json.optional readEntries features
        doc := ← Json.optional Json.string? doc }
  | _ => none

/-- A cons-list from JSON, by a reader for its AVM. -/
def ConsList.ofJson? (readAvm : Json → Option Avm) (j : Json) : Option ConsList := do
  match ← j.record? ["avm", "last_path", "len", "terminated"] with
  | [avm, lastPath, length, terminated] =>
    pure
      { avm := ← Json.required readAvm avm
        lastPath := ← Json.required Json.string? lastPath
        length := ← Json.required Json.count? length
        terminated := ← Json.required Json.bool? terminated }
  | _ => none

/-- A difference list from JSON, by a reader for its AVM. -/
def DiffList.ofJson? (readAvm : Json → Option Avm) (j : Json) : Option DiffList := do
  match ← j.record? ["avm", "len"] with
  | [avm, length] =>
    pure { avm := ← Json.required readAvm avm, length := ← Json.required Json.count? length }
  | _ => none

/-- A term from JSON, by a reader for the values of its features. -/
def Term.ofJson? (readValue : Json → Option Conjunction) (j : Json) : Option Term := do
  match ← j.alternative? with
  | ("TypeIdentifier", content) => Term.ofTypeJson? .name content
  | ("String", content) => Term.ofTypeJson? .string content
  | ("Regex", content) => Term.ofTypeJson? .regex content
  | ("Coreference", content) => Term.ofCoreferenceJson? content
  | ("Avm", content) => (Avm.ofJson? readValue content).map .avm
  | ("ConsList", content) => (ConsList.ofJson? (Avm.ofJson? readValue) content).map .cons
  | ("DiffList", content) => (DiffList.ofJson? (Avm.ofJson? readValue) content).map .diff
  | _ => none

/-- A conjunction from JSON, down to a depth. -/
def Conjunction.ofJsonTo? : Nat → Json → Option Conjunction
  | 0, _ => none
  | depth + 1, j => do
    match ← j.record? ["terms"] with
    | [terms] =>
      Json.required (Json.list? (Term.ofJson? (Conjunction.ofJsonTo? depth))) terms
    | _ => none

/-- A conjunction from JSON. -/
def Conjunction.ofJson? (j : Json) : Option Conjunction := Conjunction.ofJsonTo? j.depth j

end TypeDescription
