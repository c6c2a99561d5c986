import TypeDescription.Json

/-!
The shapes in which data is held as JSON. A record is an object with named members: their order is
free, members with other names are ignored, and a name may be given once. An array of the values in
the order of the names is read as the same record. One of several alternatives is an object of a
single member, named for the alternative; an alternative without content may be just its name.
-/

namespace TypeDescription.Json

/-- The values of the named members of a record. A member that is not there has none. -/
def record? (names : List String) : Json → Option (List (Option Json))
  | object members =>
    if names.all fun name => (members.filter fun member => member.1 = name).length ≤ 1 then
      some (names.map fun name => members.lookup name)
    else none
  | array items => if items.length = names.length then some (items.map some) else none
  | _ => none

/-- The alternative and its content. -/
def alternative? : Json → Option (String × Json)
  | object [(name, content)] => some (name, content)
  | string name => some (name, null)
  | _ => none

/-- A value that must be there. -/
def required (read : Json → Option α) (member : Option Json) : Option α := member.bind read

/-- A value that may be missing or null. -/
def optional (read : Json → Option α) : Option Json → Option (Option α)
  | none => some none
  | some null => some none
  | some j => (read j).map some

/-- A string. -/
def string? : Json → Option String
  | string text => some text
  | _ => none

/-- A truth value. -/
def bool? : Json → Option Bool
  | bool value => some value
  | _ => none

/-- The largest count that can be held. -/
def maxCount : Nat := UInt64.size - 1

/-- A count. -/
def count? : Json → Option Nat
  | count n => if n ≤ maxCount then some n else none
  | _ => none

/-- The values of an array. -/
def list? (read : Json → Option α) : Json → Option (List α)
  | array items => items.mapM read
  | _ => none

/-- An array of two values. -/
def pair? (read : Json → Option α) : Json → Option (α × α)
  | array [a, b] => do pure (← read a, ← read b)
  | _ => none

end TypeDescription.Json
