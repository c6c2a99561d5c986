import TypeDescription.Definition
import TypeDescription.Json.Reader
import TypeDescription.Term.Json

/-!
Events as JSON, and back. An event is one of five alternatives; an inflectional rule holds a
definition as it stands alone. A text that is read must be a JSON value of this form and nothing
else, and must not be nested too deep.
-/

namespace TypeDescription

/-- A set of coreferences as JSON. -/
def CoreferenceSet.json (set : CoreferenceSet) : Json :=
  .object [("tag", .ofOption set.tag), ("paths", .array (set.paths.map .string))]

/-- A set of coreferences from JSON. -/
def CoreferenceSet.ofJson? (j : Json) : Option CoreferenceSet := do
  match ← j.record? ["tag", "paths"] with
  | [tag, paths] =>
    pure
      { tag := ← Json.optional Json.string? tag
        paths := ← Json.required (Json.list? Json.string?) paths }
  | _ => none

/-- A definition as JSON. -/
def Definition.json (d : Definition) : Json :=
  .object
    [ ("identifier", .string d.identifier)
    , ("conjunction", d.conjunction.json)
    , ("coreferences", .array (d.coreferences.map CoreferenceSet.json))
    , ("docstring", .ofOption d.doc)
    , ("addendum", .bool d.isAddendum) ]

/-- A definition from JSON. -/
def Definition.ofJson? (j : Json) : Option Definition := do
  match ← j.record? ["identifier", "conjunction", "coreferences", "docstring", "addendum"] with
  | [identifier, conjunction, coreferences, doc, isAddendum] =>
    pure
      { identifier := ← Json.required Json.string? identifier
        conjunction := ← Json.required Conjunction.ofJson? conjunction
        coreferences := ← Json.required (Json.list? CoreferenceSet.ofJson?) coreferences
        doc := ← Json.optional Json.string? doc
        isAddendum := ← Json.required Json.bool? isAddendum }
  | _ => none

namespace AffixSide

/-- The name of a side as an alternative. -/
def jsonName : AffixSide → String
  | front => "Prefix"
  | back => "Suffix"

/-- A side from JSON: an alternative without content. -/
def ofJson? (j : Json) : Option AffixSide := do
  match ← j.alternative? with
  | ("Prefix", .null) => pure front
  | ("Suffix", .null) => pure back
  | _ => none

end AffixSide

/-- An inflectional rule as JSON. -/
def InflectionalRule.json (r : InflectionalRule) : Json :=
  .object
    [ ("definition", r.definition.json)
    , ("affix_type", .string r.side.jsonName)
    , ("affixes", .array (r.affixes.map fun (pattern, replacement) =>
        .array [.string pattern, .string replacement])) ]

/-- An inflectional rule from JSON. -/
def InflectionalRule.ofJson? (j : Json) : Option InflectionalRule := do
  match ← j.record? ["definition", "affix_type", "affixes"] with
  | [definition, side, affixes] =>
    pure
      { definition := ← Json.required Definition.ofJson? definition
        side := ← Json.required AffixSide.ofJson? side
        affixes := ← Json.required (Json.list? (Json.pair? Json.string?)) affixes }
  | _ => none

namespace Event

/-- A text and its line as JSON. -/
def lineJson (name text : String) (line : Nat) : Json :=
  .object [(name, .object [("text", .string text), ("line_number", .count line)])]

/-- An event as JSON. -/
def json : Event → Json
  | definition d => .object [("Type", d.json)]
  | rule r => .object [("InflRule", r.json)]
  | letterSet text line => lineJson "LetterSet" text line
  | lineComment text line => lineJson "LineComment" text line
  | blockComment text line => lineJson "BlockComment" text line

/-- A text and its line from the content of an alternative. -/
def ofLineJson? (event : String → Nat → Event) (content : Json) : Option Event := do
  match ← content.record? ["text", "line_number"] with
  | [text, line] =>
    pure (event (← Json.required Json.string? text) (← Json.required Json.count? line))
  | _ => none

/-- An event from JSON. -/
def ofJson? (j : Json) : Option Event := do
  match ← j.alternative? with
  | ("Type", content) => (Definition.ofJson? content).map definition
  | ("InflRule", content) => (InflectionalRule.ofJson? content).map rule
  | ("LetterSet", content) => ofLineJson? letterSet content
  | ("LineComment", content) => ofLineJson? lineComment content
  | ("BlockComment", content) => ofLineJson? blockComment content
  | _ => none

/-- How deeply arrays and objects may be nested in what is read as an event. Members that are
ignored may hold anything. -/
def maxDepth : Nat := 127

/-- An event from the text of its JSON. -/
def ofJsonText? (text : String) : Option Event :=
  (Json.ofText? text).bind fun j => ofJson? (j.cut maxDepth)

end Event

end TypeDescription
