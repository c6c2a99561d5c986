import TypeDescription.Path

/-!
The values of the language. A conjunction is a sequence of terms that all hold at once. A term is a
type (a name, a string or a regular expression), a coreference, a feature structure, or one of the
two kinds of list, which are feature structures of a fixed shape. A feature structure, or AVM, maps
feature names to conjunctions and remembers their order. A null AVM has no map at all: it stands
for a structure that is closed and empty, such as the empty list.

The features of an AVM are reached by paths. Reading a path tries the structured terms of a
conjunction in turn and takes the first that has the whole path; writing extends the first plain
AVM of a conjunction, or a new one at its end.
-/

namespace TypeDescription

/-- The three spellings of a type-like term. -/
inductive TypeForm where
  | name
  | string
  | regex
  deriving DecidableEq, Repr

mutual

/-- One constraint of a conjunction, with the docstring that stands before it. The docstring of a
structured term is held by its AVM. -/
inductive Term where
  | type (form : TypeForm) (text : String) (doc : Option String)
  /-- A tag is held without its number sign; the end of a difference list has no tag. -/
  | coreference (tag : Option String) (doc : Option String)
  | avm (avm : Avm)
  | cons (list : ConsList)
  | diff (list : DiffList)

/-- An ordered map from feature names to conjunctions; without a map it is null. -/
structure Avm where
  features : Option (List (String × List Term))
  doc : Option String

/-- A list whose items are the `FIRST` values along a chain of `REST` features. `lastPath` is the
path of the `REST` after the last item, in text. -/
structure ConsList where
  avm : Avm
  lastPath : String
  length : Nat
  terminated : Bool

/-- A list under the feature `LIST` whose open end is shared with the feature `LAST`. -/
structure DiffList where
  avm : Avm
  length : Nat

end

/-- Terms that hold at once, in the order in which they are written. -/
abbrev Conjunction := List Term

/-- The entries of an AVM. -/
abbrev Features := List (String × Conjunction)

namespace Term

/-- A type name without a docstring. -/
def named (name : String) : Term := .type .name name none

/-- The AVM of a structured term. -/
def avm? : Term → Option Avm
  | .avm a => some a
  | .cons l => some l.avm
  | .diff l => some l.avm
  | .type .. | .coreference .. => none

/-- The docstring of a term. -/
def doc : Term → Option String
  | .type _ _ doc | .coreference _ doc => doc
  | .avm a => a.doc
  | .cons l => l.avm.doc
  | .diff l => l.avm.doc

/-- The term with another docstring, or with none. -/
def withDoc (doc : Option String) : Term → Term
  | .type form text _ => .type form text doc
  | .coreference tag _ => .coreference tag doc
  | .avm a => .avm { a with doc }
  | .cons l => .cons { l with avm := { l.avm with doc } }
  | .diff l => .diff { l with avm := { l.avm with doc } }

/-- Is this term a type name, a string or a regular expression? -/
def isType : Term → Bool
  | .type .. => true
  | _ => false

/-- The text of a type-like term. -/
def typeText? : Term → Option String
  | .type _ text _ => some text
  | _ => none

end Term

namespace Features

/-- Changes the value of a feature. A feature that is not there is added at the end, as a change of
the empty conjunction. -/
def update (entries : Features) (name : String) (change : Conjunction → Conjunction) : Features :=
  match entries with
  | [] => [(name, change [])]
  | (key, value) :: rest =>
    if key = name then (key, change value) :: rest else (key, value) :: update rest name change

end Features

namespace Avm

/-- The AVM without features, which is not null. -/
def empty : Avm := { features := some [], doc := none }

/-- Is there no map at all? -/
def isNull (a : Avm) : Bool := a.features.isNone

/-- The features and their values, in order; a null AVM has none. -/
def entries (a : Avm) : Features := a.features.getD []

/-- The number of features. -/
def size (a : Avm) : Nat := a.entries.length

/-- Are there no features? -/
def isEmpty (a : Avm) : Bool := a.entries.isEmpty

/-- Changes the value of one feature; a null AVM becomes one that is not. -/
def update (a : Avm) (name : String) (change : Conjunction → Conjunction) : Avm :=
  { a with features := some (a.entries.update name change) }

/-- Changes every value in the same way. -/
def mapValues (a : Avm) (change : Conjunction → Conjunction) : Avm :=
  { a with features := a.features.map (List.map fun (name, value) => (name, change value)) }

end Avm

/-- Changes every value of the features of a term in the same way. -/
def Term.mapValues (t : Term) (change : Conjunction → Conjunction) : Term :=
  match t with
  | .avm a => .avm (a.mapValues change)
  | .cons l => .cons { l with avm := l.avm.mapValues change }
  | .diff l => .diff { l with avm := l.avm.mapValues change }
  | t => t

namespace Conjunction

/-- The type-like terms. -/
def types (c : Conjunction) : List Term := c.filter (·.isType)

/-- The text of the first string. -/
def string? (c : Conjunction) : Option String :=
  c.findSome? fun
    | .type .string text _ => some text
    | _ => none

/-- The AVMs of the structured terms. -/
def avms (c : Conjunction) : List Avm := c.filterMap (·.avm?)

/-- The value that a path leads to. -/
def get? (c : Conjunction) (path : Path) : Option Conjunction :=
  match path with
  | [] => some c
  | name :: rest => c.avms.findSome? fun a => (a.entries.lookup name).bind fun v => get? v rest

/-- Does the path lead to a value? -/
def contains (c : Conjunction) (path : Path) : Bool := (get? c path).isSome

/-- Changes the first plain AVM; where there is none, a changed empty one is added at the end. -/
def updateAvm (c : Conjunction) (change : Avm → Avm) : Conjunction :=
  match c with
  | [] => [.avm (change .empty)]
  | .avm a :: rest => .avm (change a) :: rest
  | t :: rest => t :: updateAvm rest change

/-- Adds terms at the end of a path, making the AVMs that are missing on the way. -/
def set (c : Conjunction) (path : Path) (value : Conjunction) : Conjunction :=
  match path with
  | [] => c ++ value
  | name :: rest => updateAvm c fun a => a.update name fun old => set old rest value

end Conjunction

namespace Avm

/-- The value that a path leads to. The empty path leads to no conjunction of the AVM. -/
def get? (a : Avm) (path : Path) : Option Conjunction :=
  match path with
  | [] => none
  | name :: rest => (a.entries.lookup name).bind fun value => Conjunction.get? value rest

/-- Does the path lead to a value? -/
def contains (a : Avm) (path : Path) : Bool := (a.get? path).isSome

/-- Adds terms at the end of a path, making the AVMs that are missing on the way. -/
def set (a : Avm) (path : Path) (value : Conjunction) : Avm :=
  match path with
  | [] => a
  | name :: rest => a.update name fun old => Conjunction.set old rest value

/-- The AVM made by setting each path in turn. -/
def ofPaths (values : List (Path × Conjunction)) : Avm :=
  values.foldl (fun a (path, value) => a.set path value) empty

end Avm

end TypeDescription
