import TypeDescription.Json.Scan

/-!
Reading a JSON text: a machine takes its tokens one by one. The stack of frames holds the arrays
and objects that are open, each with what of it is complete; a text is a value if the machine ends
with a complete value and an empty stack.
-/

namespace TypeDescription.Json

/-- An array or object whose next value is being read. Names are strings, be they texts or not. -/
inductive Frame where
  | item (done : List Json)
  | member (done : List (Json × Json)) (name : Json)

/-- What is due next inside the innermost frame. -/
inductive Point where
  | value
  /-- The first item of an array, or its end. -/
  | firstItem
  /-- The first member of an object, or its end. -/
  | firstMember
  | name (done : List (Json × Json))
  | colon (done : List (Json × Json)) (name : Json)
  /-- A value is complete. -/
  | complete (value : Json)

/-- The object with these members, provided that all names are texts. -/
def ofMembers (members : List (Json × Json)) : Json :=
  let named? : Json × Json → Option (String × Json)
    | (string name, value) => some (name, value)
    | _ => none
  match members.mapM named? with
  | some members => object members
  | none =>
    let written := members.map fun (name, value) => name.written ++ ':' :: value.written
    other ('{' :: (joined written ++ ['}']))

/-- The machine between two tokens. -/
structure State where
  frames : List Frame
  point : Point

namespace State

/-- Before the first token. -/
def start : State := { frames := [], point := .value }

/-- A token where a value is due. -/
def readValue (frames : List Frame) : Lexeme → Option State
  | .scalar value => some { frames, point := .complete value }
  | .text value => some { frames, point := .complete value }
  | .arrayOpen => some { frames, point := .firstItem }
  | .objectOpen => some { frames, point := .firstMember }
  | _ => none

/-- A token where the name of a member is due. -/
def readName (frames : List Frame) (done : List (Json × Json)) : Lexeme → Option State
  | .text name => some { frames, point := .colon done name }
  | _ => none

/-- A token after a complete value. -/
def readAfterValue (frames : List Frame) (value : Json) (lexeme : Lexeme) : Option State :=
  match lexeme, frames with
  | .comma, .item done :: frames =>
    some { frames := .item (done ++ [value]) :: frames, point := .value }
  | .arrayClose, .item done :: frames =>
    some { frames, point := .complete (.array (done ++ [value])) }
  | .comma, .member done name :: frames =>
    some { frames, point := .name (done ++ [(name, value)]) }
  | .objectClose, .member done name :: frames =>
    some { frames, point := .complete (ofMembers (done ++ [(name, value)])) }
  | _, _ => none

/-- One token. -/
def read (state : State) (lexeme : Lexeme) : Option State :=
  match state.point, lexeme with
  | .value, lexeme => readValue state.frames lexeme
  | .firstItem, .arrayClose => some { state with point := .complete (.array []) }
  | .firstItem, lexeme => readValue (.item [] :: state.frames) lexeme
  | .firstMember, .objectClose => some { state with point := .complete (.object []) }
  | .firstMember, lexeme => readName state.frames [] lexeme
  | .name done, lexeme => readName state.frames done lexeme
  | .colon done name, .colon =>
    some { frames := .member done name :: state.frames, point := .value }
  | .colon _ _, _ => none
  | .complete value, lexeme => readAfterValue state.frames value lexeme

/-- The value, if the machine is at the end of one. -/
def result? (state : State) : Option Json :=
  match state with
  | { frames := [], point := .complete value } => some value
  | _ => none

end State

/-- The value that a text denotes. -/
def ofText? (text : String) : Option Json := do
  let state ← (← lexemes text.toList 0).foldlM State.read State.start
  state.result?

end TypeDescription.Json
