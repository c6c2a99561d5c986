import TypeDescription.Error

/-!
Coreferences: paths of one definition that share a value. While a definition is read, each tag is
mentioned at the path where it stands, and a difference list mentions its open end together with
its last feature. The mentions, in order, are all that is needed to find the sets at the end.
-/

namespace TypeDescription

/-- Paths that share a value, and the tag that says so, if there is one. -/
structure CoreferenceSet where
  tag : Option String
  paths : List String
  deriving DecidableEq, Repr

/-- A place where sharing is written. -/
inductive Mention where
  /-- A coreference at a path. Without a tag it stands alone. -/
  | single (tag : Option String) (path : String)
  /-- All the paths that share one value. -/
  | together (paths : List String)
  deriving DecidableEq, Repr

namespace Mention

/-- The tag that is mentioned. -/
def tag? : Mention → Option String
  | single tag _ => tag
  | together _ => none

/-- The path at which this tag is mentioned. -/
def pathOf? (tag : String) : Mention → Option String
  | single (some tag') path => if tag' = tag then some path else none
  | _ => none

/-- The paths of a mention that has no tag. -/
def untagged? : Mention → Option (List String)
  | single none path => some [path]
  | single (some _) _ => none
  | together paths => some paths.eraseDups

end Mention

namespace CoreferenceSet

/-- The sets that mentions make, solitary ones included: one for each tag, in the order of their
first mention, and then one for each mention without a tag. No set repeats a path. -/
def ofMentions (mentions : List Mention) : List CoreferenceSet :=
  let tags := (mentions.filterMap Mention.tag?).eraseDups
  let tagged := tags.map fun tag =>
    { tag := some tag, paths := (mentions.filterMap (Mention.pathOf? tag)).eraseDups }
  tagged ++ (mentions.filterMap Mention.untagged?).map fun paths => { tag := none, paths }

/-- Is there at most one path? -/
def isSolitary (set : CoreferenceSet) : Bool := set.paths.length < 2

/-- The sets of the mentions, unless one of them is solitary; the first such set is the fault. -/
def resolve (mentions : List Mention) : Except Cause (List CoreferenceSet) :=
  let sets := ofMentions mentions
  match sets.find? isSolitary with
  | some set => .error (.solitaryCoreference set.tag (set.paths.headD ""))
  | none => .ok sets

end CoreferenceSet

end TypeDescription
