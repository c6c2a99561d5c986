import TypeDescription.Unicode.Width.Letter

/-!
Emoji that are put together from several characters. A skin tone belongs to the emoji before it, two
indicators of regions are a flag, and a joiner makes one emoji of the two beside it. Whatever the
number of its characters, an emoji takes two columns. A text is looked at from its end, so here
stands the end of an emoji, and what becomes of it with one more character before it.
-/

namespace TypeDescription.Unicode.Width

/-- The end of an emoji. -/
inductive EmojiEnd where
  /-- A whole emoji. -/
  | whole
  /-- A skin tone. -/
  | tone
  /-- An indicator of a region, with none before it yet. -/
  | indicator
  /-- Two or more indicators of regions. -/
  | flags
  /-- A joiner and the emoji that it joins to the one before it. -/
  | joined
  /-- The frame of a key, and the emoji joined to the key. -/
  | joinedKey
  /-- Indicators of regions, and the emoji joined to the last of them. An even number of them are
  flags, the last of which is joined; an odd number ends in an indicator by itself. -/
  | joinedFlags (count : Nat)
  /-- The last letters and digits of a flag that is spelled, its end, and the emoji joined to it. -/
  | joinedTag (letters digits : Nat)
  deriving DecidableEq, Repr

/-- Is this character an indicator of a region? Two of them are a flag. -/
def isIndicator (c : Char) : Bool := within [(0x1F1E6, 0x1F1FF)] c

/-- Does this character, put after an emoji, choose a skin tone? -/
def isTone (c : Char) : Bool := within [(0x1F3FB, 0x1F3FF)] c

/-- Is this character a letter of a flag that is spelled? -/
def isTagLetter (c : Char) : Bool := within [(0xE0061, 0xE007A)] c

/-- Is this character a digit of a flag that is spelled? -/
def isTagDigit (c : Char) : Bool := within [(0xE0030, 0xE0039)] c

namespace EmojiEnd

/-- The end of an emoji that this character is. -/
def ofChar? (c : Char) : Option EmojiEnd :=
  if isIndicator c then some indicator
  else if isTone c then some tone
  else if within emojiRanges c then some whole
  else none

/-- May a joiner stand before it? -/
def joinable : EmojiEnd → Bool
  | whole | tone | flags => true
  | joinedFlags count => 2 ≤ count
  | indicator | joined | joinedKey | joinedTag .. => false

/-- A character before an emoji that is joined to it: it is a whole emoji, or the end of one. -/
def beforeJoined (c : Char) : Option (Int × EmojiEnd) :=
  if c.toNat = 0x20E3 then some (0, joinedKey)
  else if isIndicator c then some (1, joinedFlags 1)
  else if isTone c then some (0, tone)
  else if c.toNat = 0xE007F then some (0, joinedTag 0 0)
  else if within emojiRanges c then some (0, whole)
  else none

/-- A character before indicators of regions, this many, the last of which is joined. -/
def beforeFlags (count : Nat) (c : Char) : Option (Int × EmojiEnd) :=
  if isIndicator c then some (if count % 2 = 0 then 3 else -1, joinedFlags (count + 1)) else none

/-- A character before the end of a flag that is spelled. It has three to six letters or three
digits, and up to four letters after the digits, and stands after a black flag. -/
def beforeTag (letters digits : Nat) (c : Char) : Option (Int × EmojiEnd) :=
  if isTagLetter c && digits = 0 && letters < 6 then some (0, joinedTag (letters + 1) 0)
  else if isTagDigit c && letters ≤ 4 && digits < 3 then some (0, joinedTag letters (digits + 1))
  else if c.toNat = 0x1F3F4 && (digits = 3 || digits = 0 && 3 ≤ letters) then some (0, whole)
  else none

/-- A character before the end of an emoji: the columns that it adds to those that are counted, and
the end of an emoji that it makes. A character that does not belong to the emoji gives nothing. -/
def before (ending : EmojiEnd) (c : Char) : Option (Int × EmojiEnd) :=
  if isJoiner c && ending.joinable then some (0, joined)
  else
    match ending with
    | tone => if within toneableRanges c then some (0, whole) else none
    | indicator | flags => if isIndicator c then some (1, flags) else none
    | joined => beforeJoined c
    | joinedFlags count => beforeFlags count c
    | joinedTag letters digits => beforeTag letters digits c
    | whole | joinedKey => none

end EmojiEnd

end TypeDescription.Unicode.Width
