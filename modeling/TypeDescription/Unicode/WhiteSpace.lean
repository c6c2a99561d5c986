import TypeDescription.Unicode.Range

/-!
The Unicode property `White_Space`: twenty-five characters in ten ranges. Blank lines, the gaps
between tokens and the margins of a printed source line are all measured with it. It has more
characters than the ASCII class of the core library.
-/

namespace TypeDescription.Unicode

/-- The ranges of `White_Space`, both ends included, in increasing order. -/
def whiteSpaceRanges : List (Nat × Nat) :=
  [ (0x0009, 0x000D)  -- tab, line feed, vertical tab, form feed, carriage return
  , (0x0020, 0x0020)  -- space
  , (0x0085, 0x0085)  -- next line
  , (0x00A0, 0x00A0)  -- no-break space
  , (0x1680, 0x1680)  -- ogham space mark
  , (0x2000, 0x200A)  -- en quad to hair space
  , (0x2028, 0x2029)  -- line and paragraph separators
  , (0x202F, 0x202F)  -- narrow no-break space
  , (0x205F, 0x205F)  -- medium mathematical space
  , (0x3000, 0x3000)  -- ideographic space
  ]

/-- Is this character white space? -/
def isWhiteSpace (c : Char) : Bool := within whiteSpaceRanges c

/-- The text without the white space at its end. -/
def trimEnd (s : List Char) : List Char := (s.reverse.dropWhile isWhiteSpace).reverse

/-- The text without the white space around it. -/
def trim (s : List Char) : List Char := trimEnd (s.dropWhile isWhiteSpace)

end TypeDescription.Unicode
