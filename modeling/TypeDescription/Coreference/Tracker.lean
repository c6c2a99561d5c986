import TypeDescription.Coreference

/-!
Tracking coreferences one mention at a time. A tracker remembers its tags in the order in which they
were first recorded, each with its paths, and beside them the paths of every record without a tag.
A path that is recorded again for its tag makes no difference. Only when all is recorded are the sets
looked at, one after the other; the first one that is solitary is the fault.
-/

namespace TypeDescription

/-- Puts an element at the end, unless it is there already. -/
def addNew [DecidableEq α] (elements : List α) (a : α) : List α :=
  if a ∈ elements then elements else elements ++ [a]

/-- What was recorded so far. -/
structure CoreferenceTracker where
  /-- The tags, and the paths of each. -/
  tagged : List (String × List String)
  /-- The paths of each record without a tag. -/
  untagged : List (List String)
  deriving DecidableEq, Repr

namespace CoreferenceTracker

/-- The tracker of a new definition. -/
def new : CoreferenceTracker := { tagged := [], untagged := [] }

/-- Adds a path to those of a tag. A new tag is put at the end. -/
def addPath (tag path : String) : List (String × List String) → List (String × List String)
  | [] => [(tag, [path])]
  | (known, paths) :: rest =>
    if known = tag then (known, addNew paths path) :: rest else (known, paths) :: addPath tag path rest

/-- Records a path that carries a coreference. Without a tag it makes a set of its own. -/
def record (t : CoreferenceTracker) (tag : Option String) (path : String) : CoreferenceTracker :=
  match tag with
  | some tag => { t with tagged := addPath tag path t.tagged }
  | none => { t with untagged := t.untagged ++ [[path]] }

/-- Records all the paths of a set without a tag. -/
def recordSet (t : CoreferenceTracker) (paths : List String) : CoreferenceTracker :=
  { t with untagged := t.untagged ++ [paths.foldl addNew []] }

/-- Records a mention. -/
def take (t : CoreferenceTracker) : Mention → CoreferenceTracker
  | .single tag path => t.record tag path
  | .together paths => t.recordSet paths

/-- The tracker of some mentions, recorded in turn. -/
def ofMentions (mentions : List Mention) : CoreferenceTracker := mentions.foldl take new

/-- The sets: those with tags, and then those without. -/
def sets (t : CoreferenceTracker) : List CoreferenceSet :=
  t.tagged.map (fun (tag, paths) => { tag := some tag, paths }) ++
    t.untagged.map fun paths => { tag := none, paths }

/-- A set, unless it is solitary. -/
def checked (set : CoreferenceSet) : Except Cause CoreferenceSet :=
  match set.paths with
  | [] => .error (.solitaryCoreference set.tag "")
  | [path] => .error (.solitaryCoreference set.tag path)
  | _ => .ok set

/-- The sets, unless one of them is solitary. -/
def resolve (t : CoreferenceTracker) : Except Cause (List CoreferenceSet) := t.sets.mapM checked

end CoreferenceTracker

end TypeDescription
