import TypeDescription.File

/-!
A tree of files in memory, seen from its root as working directory. Paths are resolved the usual
way: one component after the other, each of them in the directory reached so far. What lies above
the root is a directory about which nothing is known.
-/

namespace TypeDescription

/-- A tree of files: the files and the directories that it was made of, by their paths from the
root. The directories on the way to them belong to it as well. -/
structure FileTree where
  files : List (List String × List UInt8)
  directories : List (List String)
  deriving DecidableEq, Repr

namespace FileTree

/-- The components of a path. -/
def components (path : String) : List String := (path.toList.splitOn '/').map String.ofList

/-- Is this component the name of the directory that it is met in? -/
def isSelf (component : String) : Bool := component = "" || component = "."

/-- The names that a path is made of. -/
def names (path : String) : List String := (components path).filter fun name => !isSelf name

/-- The place that is reached from a place by one name: two dots lead back. The root is not left. -/
def enter (place : List String) (name : String) : List String :=
  if name = ".." then place.dropLast else place ++ [name]

/-- The places that are reached from a place by names, one after the other. -/
def placesFrom (place : List String) : List String → List (List String)
  | [] => []
  | name :: rest => enter place name :: placesFrom (enter place name) rest

/-- A tree with nothing in it. -/
def empty : FileTree := { files := [], directories := [] }

/-- Adds a file, in the place of the one that is where its path leads, and the directories that the
path goes through. -/
def withFile (tree : FileTree) (path : String) (bytes : List UInt8) : FileTree :=
  let places := placesFrom [] (names path)
  { files := (places.getLastD [], bytes) :: tree.files
    directories := places.dropLast ++ tree.directories }

/-- Adds a directory, and those that its path goes through. -/
def withDirectory (tree : FileTree) (path : String) : FileTree :=
  { tree with directories := placesFrom [] (names path) ++ tree.directories }

/-- Is there a directory at this place? -/
def hasDirectory (tree : FileTree) (place : List String) : Bool :=
  place.isEmpty || (tree.files.map (·.1) ++ tree.directories).any place.isPrefixOf

/-- What a path leads to. -/
inductive Node where
  | file (bytes : List UInt8)
  | directory (place : List String)
  /-- A directory above the root. -/
  | above
  deriving DecidableEq, Repr

/-- What the system says about a path that leads nowhere. -/
def missing : String := "No such file or directory (os error 2)"

/-- What the system says about a path that leads through a file. -/
def notDirectory : String := "Not a directory (os error 20)"

/-- What the system says when a directory is read like a file. -/
def isDirectory : String := "Is a directory (os error 21)"

/-- Goes on by one component of a path. -/
def step (tree : FileTree) (name : String) : Node → Except String Node
  | .file _ => .error notDirectory
  | .above => if isSelf name || name = ".." then .ok .above else .error missing
  | .directory place =>
    if isSelf name then
      .ok (.directory place)
    else if name = ".." then
      .ok (if place.isEmpty then .above else .directory place.dropLast)
    else
      let next := place ++ [name]
      match tree.files.lookup next with
      | some bytes => .ok (.file bytes)
      | none => if tree.hasDirectory next then .ok (.directory next) else .error missing

/-- Goes on by the components of a path. -/
def walk (tree : FileTree) : List String → Node → Except String Node
  | [], node => .ok node
  | name :: rest, node => tree.step name node >>= tree.walk rest

/-- What a path leads to, or why it leads nowhere. A path that begins with a slash does not start
at the root of the tree. -/
def resolve (tree : FileTree) (path : String) : Except String Node :=
  match components path with
  | [""] => .error missing
  | "" :: rest => tree.walk rest .above
  | path => tree.walk path (.directory [])

/-- What opening a path gives. -/
def file (tree : FileTree) (path : String) : File :=
  match tree.resolve path with
  | .ok (.file bytes) => .opened bytes none
  | .ok _ => .opened [] (some isDirectory)
  | .error reason => .refused reason

end FileTree

end TypeDescription
