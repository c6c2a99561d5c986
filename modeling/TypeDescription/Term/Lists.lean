import TypeDescription.Error
import TypeDescription.Term

/-!
List sugar. `< a, b >` is a chain of AVMs: each item is the value of `FIRST`, and `REST` leads to
what follows it. The last `REST` says how the list ends: with `*null*` the list is closed, with
`*list*` or no value it is open, and any other value is a dotted tail. `<! a, b !>` holds such a
chain under `LIST`; its end is open and shared with the value of `LAST`.
-/

namespace TypeDescription

/-- The feature of an item. -/
def listHead : String := "FIRST"

/-- The feature of what follows an item. -/
def listTail : String := "REST"

/-- The feature of the chain of a difference list. -/
def diffListChain : String := "LIST"

/-- The feature that shares the open end of a difference list. -/
def diffListLast : String := "LAST"

/-- The path from a list to the item with this index. -/
def itemPath (index : Nat) : Path := List.replicate index listTail ++ [listHead]

/-- The path from a list to what follows its first `length` items. -/
def tailPath (length : Nat) : Path := List.replicate length listTail

/-- How a conjunction ends a list when it stands for its last tail. -/
inductive ListEnd where
  | closed
  | open
  | value
  deriving DecidableEq, Repr

/-- A single type name may be one of the two that mark an end; a docstring makes no difference. -/
def ListEnd.of : Conjunction → ListEnd
  | [.type .name text _] =>
    if text = emptyListType then .closed
    else if text = openListType then .open
    else .value
  | _ => .value

namespace ConsList

/-- The list without items, which is open. -/
def empty : ConsList := { avm := .empty, lastPath := "", length := 0, terminated := false }

/-- The list with one more item at its end. -/
def push (l : ConsList) (value : Conjunction) : ConsList :=
  { l with
    avm := l.avm.set (itemPath l.length) value
    lastPath := (tailPath (l.length + 1)).text
    length := l.length + 1 }

/-- The list with this end: an open end leaves it as it is; any other end becomes the last tail,
unless there are no items, which makes the list null. -/
def finish (l : ConsList) (last : Conjunction) : ConsList :=
  match ListEnd.of last with
  | .open => l
  | .closed | .value =>
    let avm :=
      if l.length = 0 then { l.avm with features := none }
      else l.avm.set (Path.ofText l.lastPath) last
    { l with avm, terminated := true }

/-- The list with these items and this end. -/
def ofItems (items : List Conjunction) (last : Conjunction) : ConsList :=
  (items.foldl push empty).finish last

/-- What is done to a list, and may fail. What was done before a failure stays done. -/
abbrev Action := ExceptT Cause (StateM ConsList) Unit

/-- Adds an item at the end, unless the list is closed. -/
def addItem (value : Conjunction) : Action := do
  let l ← get
  if l.terminated || l.avm.isNull then throw .closedList
  modify fun l => { l with avm := l.avm.set (itemPath l.length) value }
  modify fun l => { l with length := l.length + 1 }
  modify fun l => { l with lastPath := (tailPath l.length).text }

/-- Ends the list, unless it is closed. A list without items has no dotted tail. -/
def addEnd (last : Conjunction) : Action := do
  let l ← get
  if l.terminated then throw .closedList
  let kind := ListEnd.of last
  if l.length = 0 then
    match kind with
    | .closed => modify fun l => { l with avm := { l.avm with features := none } }
    | .open => pure ()
    | .value => throw .invalidEmptyList
  else if kind ≠ .open then
    modify fun l => { l with avm := l.avm.set (Path.ofText l.lastPath) last }
  modify fun l => { l with terminated := decide (kind ≠ .open) }

/-- Whether an action on a list fails, and the list that it leaves. -/
def after (l : ConsList) (action : Action) : Except Cause Unit × ConsList := (action.run.run l).run

/-- The list after an action, for a caller that gives up the list if the action fails. -/
def changed (l : ConsList) (action : Action) : Except Cause ConsList :=
  (l.after action).1.map fun _ => (l.after action).2

/-- The list with one more item, unless that is refused. -/
def append (l : ConsList) (value : Conjunction) : Except Cause ConsList := l.changed (addItem value)

/-- The list with this end, unless that is refused. -/
def terminate (l : ConsList) (last : Conjunction) : Except Cause ConsList := l.changed (addEnd last)

/-- The list made by adding these items and this end in turn. -/
def ofValues (values : List Conjunction) (last : Conjunction) : Except Cause ConsList :=
  (values.foldlM append empty).bind fun l => l.terminate last

/-- An action that looks at the list first. -/
theorem after_get (l : ConsList) (action : ConsList → Action) :
    l.after (do action (← get)) = l.after (action l) := rfl

/-- An item is added, or the list stays as it is. -/
theorem after_add_item (l : ConsList) (value : Conjunction) : l.after (addItem value) =
    if l.terminated || l.avm.isNull then (.error .closedList, l) else (.ok (), l.push value) := by
  rw [addItem, after_get]
  cases l.terminated || l.avm.isNull <;> rfl

/-- The list is ended, or it stays as it is. -/
theorem after_add_end (l : ConsList) (last : Conjunction) : l.after (addEnd last) =
    if l.terminated then (.error .closedList, l)
    else if l.length = 0 ∧ ListEnd.of last = .value then (.error .invalidEmptyList, l)
    else (.ok (), l.finish last) := by
  obtain ⟨avm, lastPath, length, terminated⟩ := l
  rw [addEnd, after_get, finish]
  cases terminated with
  | true => rfl
  | false => cases length <;> cases ListEnd.of last <;> rfl

/-- The items, in order. -/
def values (l : ConsList) : List Conjunction :=
  (List.range l.length).filterMap fun index => l.avm.get? (itemPath index)

/-- The dotted tail of a list that has items and is ended by neither mark. -/
def tail? (l : ConsList) : Option Conjunction :=
  if !l.terminated || l.length == 0 then
    none
  else
    (l.avm.get? (Path.ofText l.lastPath)).filter fun value => ListEnd.of value ≠ .closed

end ConsList

namespace DiffList

/-- The value at the open end and at `LAST`: a coreference without a tag. -/
def openEnd : Conjunction := [.coreference none none]

/-- The path from a difference list to its open end. -/
def openEndPath (l : DiffList) : Path := diffListChain :: tailPath l.length

/-- The difference list with these items. -/
def ofValues (values : List Conjunction) : DiffList :=
  let items := values.zipIdx.foldl
    (fun (a : Avm) (value, index) => a.set (diffListChain :: itemPath index) value) .empty
  let ended := items.set (diffListChain :: tailPath values.length) openEnd
  { avm := ended.set [diffListLast] openEnd, length := values.length }

/-- The items, in order. -/
def values (l : DiffList) : List Conjunction :=
  (List.range l.length).filterMap fun index => l.avm.get? (diffListChain :: itemPath index)

end DiffList

end TypeDescription
