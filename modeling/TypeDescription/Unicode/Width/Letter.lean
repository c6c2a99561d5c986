import TypeDescription.Unicode.Range
import TypeDescription.Unicode.Width.Table

/-!
Letters that are shown as a unit with letters before them. A few scripts have such ligatures, and a
ligature takes fewer columns than its letters do one by one. A text is looked at from its end, so
here stands the later letter of a ligature, and what becomes of it with one more character before
it.
-/

namespace TypeDescription.Unicode.Width

/-- A letter, or a row of characters, that may still become the end of a ligature. Some of them need
a joiner before them, and know whether one stands there. -/
inductive Letter where
  /-- An Arabic alef, and marks before it. -/
  | alef
  /-- A Hebrew lamed. -/
  | lamed (joined : Bool)
  /-- A Buginese ya. -/
  | ya (joined : Bool)
  /-- A Buginese ya, and the vowel before its joiner. -/
  | vowelYa
  /-- A consonant of Tifinagh. -/
  | tifinagh (joined : Bool)
  /-- A consonant of Tifinagh, and the consonant joiner of that script. -/
  | joinedTifinagh
  /-- A later tone letter of Lisu. -/
  | tone
  /-- An Old Turkic letter i. -/
  | turkicI (joined : Bool)
  /-- A letter of Khmer that can be put below the one before it. -/
  | khmer
  deriving DecidableEq, Repr

/-- The Arabic letters lam. -/
def lamRanges : List (Nat × Nat) :=
  [(0x0644, 0x0644), (0x06B5, 0x06B8), (0x076A, 0x076A), (0x08A6, 0x08A6), (0x08C7, 0x08C7)]

/-- The Arabic letters alef. -/
def alefRanges : List (Nat × Nat) :=
  [ (0x0622, 0x0623), (0x0625, 0x0625), (0x0627, 0x0627), (0x0671, 0x0673), (0x0675, 0x0675)
  , (0x0773, 0x0774), (0x0870, 0x0882) ]

/-- The consonants of Tifinagh. -/
def tifinaghRanges : List (Nat × Nat) := [(0x2D31, 0x2D65), (0x2D6F, 0x2D6F)]

/-- The letters of Khmer that can be put below the letter before them. -/
def khmerRanges : List (Nat × Nat) :=
  [ (0x1780, 0x1782), (0x1784, 0x1787), (0x1789, 0x178C), (0x178E, 0x1793), (0x1795, 0x1798)
  , (0x179B, 0x179D), (0x17A0, 0x17A0), (0x17A2, 0x17A2), (0x17A7, 0x17A7), (0x17AB, 0x17AC)
  , (0x17AF, 0x17AF) ]

/-- Characters that may stand inside a ligature and are not seen. -/
def fillerRanges : List (Nat × Nat) :=
  [ (0x034F, 0x034F), (0x17B4, 0x17B5), (0x180B, 0x180D), (0x180F, 0x180F), (0xFE00, 0xFE0F)
  , (0xE0100, 0xE01EF) ]

/-- Does this character join its neighbours? -/
def isJoiner (c : Char) : Bool := c.toNat = 0x200D

namespace Letter

/-- The letter that this character is, if it can end a ligature. -/
def ofChar? (c : Char) : Option Letter :=
  if within alefRanges c then some alef
  else if c.toNat = 0x05DC then some (lamed false)
  else if c.toNat = 0x1A10 then some (ya false)
  else if within tifinaghRanges c then some (tifinagh false)
  else if within [(0xA4FC, 0xA4FD)] c then some tone
  else if c.toNat = 0x10C03 then some (turkicI false)
  else if within khmerRanges c then some khmer
  else none

/-- A joiner before the letter. -/
def joined : Letter → Letter
  | lamed _ => lamed true
  | ya _ => ya true
  | tifinagh _ => tifinagh true
  | turkicI _ => turkicI true
  | other => other

/-- May this character stand before the letter without ending its ligatures? -/
def letsPass : Letter → Char → Bool
  | alef, c => within zeroRanges c && !within breakingRanges c
  | _, c => isJoiner c || within fillerRanges c

/-- A character before a letter: the columns that it adds to those of the letter, and what may still
become the end of a ligature with more characters before it. A character that does not belong to a
ligature of the letter gives nothing. A letter of Khmer below another gives up the column that it
took by itself, and so does the joiner of Tifinagh. -/
def before (letter : Letter) (c : Char) : Option (Int × Option Letter) :=
  if letter.letsPass c then some (0, some (if isJoiner c then letter.joined else letter))
  else
    match letter with
    | alef => if within lamRanges c then some (0, none) else none
    | lamed true => if c.toNat = 0x05D0 then some (0, none) else none
    | ya true => if c.toNat = 0x1A17 then some (0, some vowelYa) else none
    | vowelYa => if c.toNat = 0x1A15 then some (0, none) else none
    | tifinagh joined =>
      if c.toNat = 0x2D7F then some (1, some joinedTifinagh)
      else if joined && within tifinaghRanges c then some (0, none)
      else none
    | joinedTifinagh => if within tifinaghRanges c then some (-1, none) else none
    | tone => if within [(0xA4F8, 0xA4FB)] c then some (0, none) else none
    | turkicI true => if c.toNat = 0x10C32 then some (0, none) else none
    | khmer => if c.toNat = 0x17D2 then some (-1, none) else none
    | lamed false | ya false | turkicI false => none

end Letter

end TypeDescription.Unicode.Width
