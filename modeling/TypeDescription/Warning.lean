/-!
Spellings that are still read but should no longer be written. A warning never stops the reading;
it names the line and, where there is one, the definition.
-/

namespace TypeDescription

/-- The old spelling that was met. -/
inductive OldSpelling where
  /-- `:<` in the place of `:=`. -/
  | subtypeOperator
  /-- `'symbol` in the place of `symbol`. -/
  | quotedSymbol
  deriving DecidableEq, Repr

/-- An old spelling and where it was met. -/
structure Warning where
  spelling : OldSpelling
  line : Nat
  identifier : Option String
  deriving DecidableEq, Repr

namespace Warning

/-- The text of a warning. -/
def text (w : Warning) : String :=
  match w.spelling with
  | .subtypeOperator =>
    let definition := match w.identifier with
      | some identifier => " for " ++ identifier
      | none => ""
    "Subtype operator :< encountered at line " ++ toString w.line ++ definition ++
      "; Continuing as if it were the := operator."
  | .quotedSymbol =>
    "Single-quoted symbol encountered at line " ++ toString w.line ++
      "; Continuing as if it were a regular symbol."

end Warning

end TypeDescription
