/-!
Classes of characters that are written as ranges of code points.
-/

namespace TypeDescription.Unicode

/-- Does a character lie in one of these ranges? Both ends of a range belong to it. -/
def within (ranges : List (Nat × Nat)) (c : Char) : Bool :=
  ranges.any fun (low, high) => low ≤ c.toNat && c.toNat ≤ high

end TypeDescription.Unicode
