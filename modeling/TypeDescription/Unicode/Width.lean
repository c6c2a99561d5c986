import TypeDescription.Unicode.Width.Emoji

/-!
Display width: how many columns of a terminal a text takes. Most characters take one column, marks
take none, and the wide characters of East Asia take two. Some characters are shown as a unit when
they stand together, and then the unit has a width of its own: emoji put together from several
characters, and the ligatures of a few scripts. Control characters count as one column each.

How a character is shown depends on what stands after it. So a text is measured from its end,
character by character, and what matters of the characters after the current one is its context.
-/

namespace TypeDescription.Unicode

namespace Width

/-- The columns of a character that stands by itself. -/
def columns (c : Char) : Nat :=
  if within zeroRanges c then 0
  else if c.toNat = 0x17D8 then 3
  else if within wideRanges c || within emojiRanges c || isTone c then 2
  else 1

/-- A variation selector: it asks that the character before it be shown as text, or as an emoji. -/
inductive Selector where
  | text
  | emoji
  deriving DecidableEq, Repr

/-- The variation selector that this character is. -/
def Selector.ofChar? (c : Char) : Option Selector :=
  if c.toNat = 0xFE0E then some text
  else if c.toNat = 0xFE0F then some emoji
  else none

/-- What stands after a character and may be shown with it as a unit. -/
inductive Follower where
  | plain
  | letter (letter : Letter)
  | emoji (ending : EmojiEnd)
  deriving DecidableEq, Repr

namespace Follower

/-- What a character is to the one before it. -/
def ofChar (c : Char) : Follower :=
  match Letter.ofChar? c, EmojiEnd.ofChar? c with
  | some found, _ => letter found
  | none, some ending => emoji ending
  | none, none => plain

/-- A character before this follower, if they are shown as a unit: the columns that it adds to those
of the follower, and what the unit is to the characters before it. -/
def before (follower : Follower) (c : Char) : Option (Int × Follower) :=
  match follower with
  | plain => none
  | letter found =>
    (found.before c).map fun (added, next) => (added, (next.map letter).getD plain)
  | emoji ending => (ending.before c).map fun (added, next) => (added, emoji next)

/-- Is it a letter? A ligature goes on across variation selectors. -/
def isLetter : Follower → Bool
  | letter _ => true
  | plain | emoji _ => false

/-- Does it wait for a character that is an emoji by means of a variation selector? -/
def awaitsSelected (follower : Follower) : Bool :=
  follower = emoji .joined || follower = emoji .joinedKey

end Follower

/-- What stands after a character, as far as its columns depend on it: a variation selector at once
after it, and what comes then. -/
structure Context where
  follower : Follower
  selector : Option Selector := none
  deriving DecidableEq, Repr

namespace Context

/-- Before nothing that matters. -/
def plain : Context := { follower := .plain }

/-- What is left if the variation selector has no effect. -/
def withoutSelector (context : Context) : Follower :=
  if context.selector.isNone || context.follower.isLetter then context.follower else .plain

/-- A variation selector before this context. What it cuts off from the characters before it is
forgotten. -/
def select (context : Context) (selector : Selector) : Context :=
  let follower := context.withoutSelector
  let kept := follower.isLetter || selector = .emoji && follower.awaitsSelected
  { follower := if kept then follower else .plain, selector := some selector }

/-- A character before this context, its variation selector apart. -/
def withoutSelection (context : Context) (c : Char) : Int × Context :=
  match context.withoutSelector.before c with
  | some (added, follower) => (added, { follower })
  | none => (columns c, { follower := .ofChar c })

/-- A character before this context: the columns that it adds, and the context that is then before
it. -/
def before (context : Context) (c : Char) : Int × Context :=
  match Selector.ofChar? c, context.selector with
  | some selector, _ => (0, context.select selector)
  | none, some .emoji =>
    if within selectableRanges c then
      (if context.follower.awaitsSelected then 0 else 2, { follower := .emoji .whole })
    else context.withoutSelection c
  | none, some .text =>
    if within textStyleRanges c then (1, plain) else context.withoutSelection c
  | none, none => context.withoutSelection c

end Context

/-- The columns of a text, and the context that it is for a character before it. -/
def measure (text : List Char) : Int × Context :=
  text.foldr
    (fun c (sum, context) =>
      let (added, context) := context.before c
      (sum + added, context))
    (0, .plain)

end Width

/-- The columns that a text takes. -/
def displayWidth (text : List Char) : Nat := (Width.measure text).1.toNat

end TypeDescription.Unicode
