import TypeDescription.Declaration.Reader
import TypeDescription.Token.Scan

/-!
Reading a source: its tokens are scanned and read, comments are left out unless they are wanted,
and the error, if there is one, is given the name of the source. What is read comes item by item:
the events, then the error, and then nothing, however often one asks.
-/

namespace TypeDescription

/-- How a source is to be read. -/
structure ReadOptions where
  /-- The name of the source, for its error. -/
  name : Option String
  /-- Are comments between definitions wanted? -/
  comments : Bool
  deriving DecidableEq, Repr

namespace ReadOptions

/-- A source without a name, whose comments are left out. -/
def plain : ReadOptions := { name := none, comments := false }

end ReadOptions

namespace Outcome

/-- Leaves out the comments. -/
def withoutComments (o : Outcome) : Outcome :=
  { o with events := o.events.filter fun event => !event.isComment }

/-- Names the source of the error. -/
def withSource (name : String) (o : Outcome) : Outcome :=
  { o with error := o.error.map (·.withSource name) }

/-- The events and the error, in order. -/
def items (o : Outcome) : List (Except Error Event) :=
  o.events.map .ok ++ o.error.toList.map .error

/-- The item that the request with this number gets, counted from zero. -/
def item? (o : Outcome) (request : Nat) : Option (Except Error Event) := o.items[request]?

/-- The definitions among the events, those with affixes included. -/
def definitions (o : Outcome) : List Definition := o.events.filterMap (·.definition?)

end Outcome

namespace Source

/-- Everything that is read from a source, comments included. -/
def readAll (source : Source) : Outcome :=
  Reader.run source.scan.error .idle source.scan.tokens

/-- What is read from a source. -/
def read (options : ReadOptions) (source : Source) : Outcome :=
  let all := source.readAll
  let wanted := if options.comments then all else all.withoutComments
  match options.name with
  | some name => wanted.withSource name
  | none => wanted

end Source

namespace ReadOptions

/-- An error in a source that may have a name. -/
def inSource (options : ReadOptions) (e : Error) : Error :=
  match options.name with
  | some name => e.withSource name
  | none => e

/-- What is wanted of an outcome. -/
def apply (options : ReadOptions) (o : Outcome) : Outcome :=
  let wanted := if options.comments then o else o.withoutComments
  match options.name with
  | some name => wanted.withSource name
  | none => wanted

theorem events_apply (options : ReadOptions) (o : Outcome) :
    (options.apply o).events = o.events.filter fun event => options.comments || !event.isComment := by
  obtain ⟨name, comments⟩ := options
  cases comments with
  | true => cases name <;> exact (List.filter_eq_self.mpr fun _ _ => rfl).symm
  | false => cases name <;> rfl

theorem warnings_apply (options : ReadOptions) (o : Outcome) : (options.apply o).warnings = o.warnings := by
  obtain ⟨name, comments⟩ := options
  cases name <;> cases comments <;> rfl

theorem error_apply (options : ReadOptions) (o : Outcome) :
    (options.apply o).error = o.error.map options.inSource := by
  obtain ⟨name, comments⟩ := options
  cases name with
  | some name => cases comments <;> rfl
  | none => cases comments <;> exact Option.map_id'.symm

end ReadOptions

theorem read_eq_apply (options : ReadOptions) (source : Source) :
    source.read options = options.apply source.readAll := rfl

/-- Without comments, what is read is what is read with them, but for the comments. -/
theorem read_without_comments (name : Option String) (source : Source) :
    source.read { name, comments := false } = (source.read { name, comments := true }).withoutComments := by
  cases name <;> rfl

end TypeDescription
