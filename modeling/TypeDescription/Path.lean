import TypeDescription.Unicode.UpperCase

/-!
Feature paths. A path is the list of the feature names that lead from a conjunction to a value
inside it; the empty path leads to the conjunction itself. In text the names are joined by dots.
Names are compared without regard to case, so reading a path puts them into upper case. A text
never denotes the empty path: without a dot it is a path of one name, even if that is empty.
-/

namespace TypeDescription

/-- A sequence of feature names. -/
abbrev Path := List String

namespace Path

/-- The path that a text denotes. -/
def ofText (text : String) : Path :=
  (text.toList.splitOn '.').map fun name => upperCase (String.ofList name)

/-- A path in text. -/
def text (path : Path) : String := ".".intercalate path

end Path

end TypeDescription
