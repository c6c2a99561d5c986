import TypeDescription.Unicode.UpperCase.Table

/-!
Upper-casing, the rule by which feature names are compared. It is the full mapping of Unicode: one
character may become several (`ß` becomes `SS`), and neither the locale nor the place in a word
matters, so the upper case of a text is that of its characters, one after the other.
-/

namespace TypeDescription.Unicode

namespace UpperCase

/-- The image of a code point under this run, if it lies on the run. -/
def Run.image? (run : Run) (code : Nat) : Option Nat :=
  if run.first ≤ code ∧ code ≤ run.last ∧ (code - run.first) % run.step = 0 then
    some (run.target + (code - run.first))
  else
    none

/-- The code points that make up the upper case of a code point. -/
def codes (code : Nat) : List Nat :=
  match runs.findSome? (·.image? code) with
  | some image => [image]
  | none => (expansions.lookup code).getD [code]

end UpperCase

/-- The upper case of one character. -/
def upperCase (c : Char) : List Char :=
  (UpperCase.codes c.toNat).map Char.ofNat

end TypeDescription.Unicode

namespace TypeDescription

/-- The upper case of a text. -/
def upperCase (text : String) : String :=
  String.ofList (text.toList.flatMap Unicode.upperCase)

end TypeDescription
