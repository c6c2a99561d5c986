import TypeDescription.Json

/-!
The depth of a JSON value: how deeply its arrays and objects are nested. A value can be cut at a
depth, so that a reader need not go below it; what is cut off is kept as it is written, and can
still be skipped by a reader that does not look at it.
-/

namespace TypeDescription.Json

mutual

/-- How deeply arrays and objects are nested. -/
def depth : Json → Nat
  | array items => depthOfItems items + 1
  | object members => depthOfMembers members + 1
  | null | bool _ | count _ | string _ | other _ => 0

/-- How deep the items of an array are. -/
def depthOfItems : List Json → Nat
  | [] => 0
  | item :: rest => max item.depth (depthOfItems rest)

/-- How deep the members of an object are. -/
def depthOfMembers : List (String × Json) → Nat
  | [] => 0
  | (_, value) :: rest => max value.depth (depthOfMembers rest)

end

mutual

/-- The value with its arrays and objects down to this depth. -/
def cut : Json → Nat → Json
  | array items, 0 => other (array items).written
  | object members, 0 => other (object members).written
  | array items, levels + 1 => array (cutItems items levels)
  | object members, levels + 1 => object (cutMembers members levels)
  | null, _ => null
  | bool value, _ => bool value
  | count value, _ => count value
  | string value, _ => string value
  | other written, _ => other written

/-- The items of an array down to this depth. -/
def cutItems : List Json → Nat → List Json
  | [], _ => []
  | item :: rest, levels => item.cut levels :: cutItems rest levels

/-- The members of an object down to this depth. -/
def cutMembers : List (String × Json) → Nat → List (String × Json)
  | [], _ => []
  | (name, value) :: rest, levels => (name, value.cut levels) :: cutMembers rest levels

end

mutual

/-- A value that is not deeper than the cut stays whole. -/
theorem cut_of_depth_le (j : Json) (levels : Nat) (shallow : j.depth ≤ levels) :
    j.cut levels = j := by
  cases j with
  | array items =>
    cases levels with
    | zero => simp [depth] at shallow
    | succ levels =>
      simp only [depth, Nat.add_le_add_iff_right] at shallow
      rw [cut, cutItems_of_depth_le items levels shallow]
  | object members =>
    cases levels with
    | zero => simp [depth] at shallow
    | succ levels =>
      simp only [depth, Nat.add_le_add_iff_right] at shallow
      rw [cut, cutMembers_of_depth_le members levels shallow]
  | null | bool | count | string | other => rw [cut]

/-- Items that are not deeper than the cut stay whole. -/
theorem cutItems_of_depth_le (items : List Json) (levels : Nat)
    (shallow : depthOfItems items ≤ levels) : cutItems items levels = items := by
  cases items with
  | nil => rw [cutItems]
  | cons item rest =>
    rw [depthOfItems, Nat.max_le] at shallow
    rw [cutItems, cut_of_depth_le item levels shallow.1, cutItems_of_depth_le rest levels shallow.2]

/-- Members that are not deeper than the cut stay whole. -/
theorem cutMembers_of_depth_le (members : List (String × Json)) (levels : Nat)
    (shallow : depthOfMembers members ≤ levels) : cutMembers members levels = members := by
  cases members with
  | nil => rw [cutMembers]
  | cons member rest =>
    obtain ⟨name, value⟩ := member
    rw [depthOfMembers, Nat.max_le] at shallow
    rw [cutMembers, cut_of_depth_le value levels shallow.1,
      cutMembers_of_depth_le rest levels shallow.2]

end

end TypeDescription.Json
