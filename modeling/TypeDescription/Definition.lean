import TypeDescription.Coreference
import TypeDescription.Term.Same
import TypeDescription.Term.Text
import TypeDescription.Term.Views

/-!
Definitions, and the other items that a source is made of. A definition names a conjunction; an
addendum adds to a definition made elsewhere. An inflectional rule is a definition with patterns
for affixes. Letter sets and comments are kept as they are written.
-/

namespace TypeDescription

/-- A named conjunction. -/
structure Definition where
  identifier : String
  conjunction : Conjunction
  coreferences : List CoreferenceSet
  /-- The docstring before the final dot. -/
  doc : Option String
  isAddendum : Bool

namespace Definition

/-- The docstrings of the terms, and then that of the definition. -/
def documentation (d : Definition) : List String :=
  d.conjunction.filterMap (·.doc) ++ d.doc.toList

/-- What is written after the operator. A docstring has a line of its own, unless nothing else is
there. -/
def bodyText (d : Definition) : String :=
  let doc := match d.doc with
    | some doc => (if d.conjunction.isEmpty then "" else "\n  ") ++ "\"\"\"" ++ doc ++ "\"\"\""
    | none => ""
  d.conjunction.text ++ doc ++ "."

/-- A definition as it is written. -/
def text (d : Definition) : String :=
  d.identifier ++ (if d.isAddendum then " :+ " else " := ") ++ d.bodyText

/-- Are two definitions the same? -/
def same (d e : Definition) : Bool :=
  d.identifier = e.identifier && Conjunction.same d.conjunction e.conjunction &&
    d.coreferences = e.coreferences && d.doc = e.doc && d.isAddendum = e.isAddendum

end Definition

/-- The side of a word on which an affix goes. -/
inductive AffixSide where
  | front
  | back
  deriving DecidableEq, Repr

namespace AffixSide

/-- The word that marks a side. -/
def word : AffixSide → String
  | front => "prefix"
  | back => "suffix"

/-- The side that a word marks. -/
def ofWord? (word : String) : Option AffixSide :=
  if word = front.word then some front
  else if word = back.word then some back
  else none

end AffixSide

/-- A definition with affixes: what matches the pattern at that side of a word is replaced. -/
structure InflectionalRule where
  definition : Definition
  side : AffixSide
  affixes : List (String × String)

namespace InflectionalRule

/-- An inflectional rule as it is written. -/
def text (r : InflectionalRule) : String :=
  let affixes := r.affixes.map fun (pattern, replacement) =>
    " (" ++ pattern ++ " " ++ replacement ++ ")"
  r.definition.identifier ++ " :=\n%" ++ r.side.word ++ String.join affixes ++ "\n  " ++
    r.definition.bodyText

/-- Are two rules the same? -/
def same (r s : InflectionalRule) : Bool :=
  r.definition.same s.definition && r.side = s.side && r.affixes = s.affixes

end InflectionalRule

/-- An item of a source. -/
inductive Event where
  | definition (d : Definition)
  | rule (r : InflectionalRule)
  | letterSet (text : String) (line : Nat)
  | lineComment (text : String) (line : Nat)
  | blockComment (text : String) (line : Nat)

namespace Event

/-- Is this event a comment? -/
def isComment : Event → Bool
  | lineComment .. | blockComment .. => true
  | _ => false

/-- The definition of an event, also of one with affixes. -/
def definition? : Event → Option Definition
  | definition d => some d
  | rule r => some r.definition
  | _ => none

/-- A definition as it is written, with its affixes. -/
def definitionText? : Event → Option String
  | definition d => some d.text
  | rule r => some r.text
  | _ => none

/-- Are two events the same? -/
def same : Event → Event → Bool
  | definition d, definition e => d.same e
  | rule r, rule s => r.same s
  | letterSet text line, letterSet text' line' => text = text' && line = line'
  | lineComment text line, lineComment text' line' => text = text' && line = line'
  | blockComment text line, blockComment text' line' => text = text' && line = line'
  | _, _ => false

end Event

end TypeDescription
