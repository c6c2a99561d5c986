/-!
Sequences of one or more elements, for everything that the grammar never leaves empty.
-/

namespace TypeDescription

/-- One or more elements. -/
structure Series (α : Type) where
  first : α
  rest : List α
  deriving DecidableEq, Repr

namespace Series

/-- The elements. -/
def toList (s : Series α) : List α := s.first :: s.rest

/-- A sequence and a last element. -/
def ofLast (before : List α) (last : α) : Series α :=
  match before with
  | [] => { first := last, rest := [] }
  | first :: rest => { first, rest := rest ++ [last] }

theorem toList_ofLast (before : List α) (last : α) :
    (ofLast before last).toList = before ++ [last] := by
  cases before <;> rfl

end Series

end TypeDescription
