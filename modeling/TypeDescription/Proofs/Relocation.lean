import TypeDescription.Proofs.Declared
import TypeDescription.Stream

/-!
Where tokens stand makes no difference to how they are read. Lines are copied from tokens to events,
warnings and errors, and nothing is decided by them; so a change of lines in the tokens is the same
change of lines in what is read.
-/

namespace TypeDescription

/-! ## Other lines -/

/-- A token on other lines. -/
def Token.relocated (f : Nat → Nat) (t : Token) : Token :=
  { t with line := f t.line, lastLine := f t.lastLine }

/-- An error on another line. -/
def Error.relocated (f : Nat → Nat) (e : Error) : Error := { e with line := e.line.map f }

/-- A warning on another line. -/
def Warning.relocated (f : Nat → Nat) (w : Warning) : Warning := { w with line := f w.line }

/-- An event on another line. A definition does not say where it stands. -/
def Event.relocated (f : Nat → Nat) : Event → Event
  | .definition d => .definition d
  | .rule r => .rule r
  | .letterSet text line => .letterSet text (f line)
  | .lineComment text line => .lineComment text (f line)
  | .blockComment text line => .blockComment text (f line)

/-- The outcome of a text whose lines are elsewhere. -/
def Outcome.relocated (f : Nat → Nat) (o : Outcome) : Outcome :=
  { events := o.events.map (Event.relocated f)
    warnings := o.warnings.map (Warning.relocated f)
    error := o.error.map (Error.relocated f) }

/-- A reader whose last token is on another line. -/
def Reader.relocated (f : Nat → Nat) : Reader → Reader
  | .idle => .idle
  | .within identifier line stage => .within identifier (f line) stage

private def Step.relocated (f : Nat → Nat) (step : Step) : Step :=
  { reader := step.reader.relocated f
    event := step.event.map (Event.relocated f)
    warning := step.warning.map (Warning.relocated f) }

/-! ## Reading -/

variable (f : Nat → Nat)

private theorem read_item_relocated (t : Token) :
    Reader.readItem (t.relocated f) =
      match Reader.readItem t with
      | .ok step => .ok (step.relocated f)
      | .error e => .error (e.relocated f) := by
  obtain ⟨kind, text, line, lastLine⟩ := t
  cases kind <;> rfl

private theorem event_relocated_of_declared {d : Declaration} {e : Event}
    (produced : d.event = .ok e) : e.relocated f = e := by
  obtain ⟨definition, rfl⟩ | ⟨rule, rfl⟩ := d.event_cases produced <;> rfl

/-- What a token does inside a definition depends on its kind and its text alone. -/
private theorem read_within_relocated (identifier : String) (stage : Stage) (t : Token) :
    Reader.readWithin identifier stage (t.relocated f) =
      (Reader.readWithin identifier stage t).map (Step.relocated f) := by
  have same : stage.read (t.relocated f) = stage.read t := rfl
  simp only [Reader.readWithin, same]
  rcases stage.read t with cause | ⟨stage, old⟩ | ⟨head, body⟩
  · rfl
  · cases old <;> rfl
  · simp only [bind, Except.bind]
    cases produced : Declaration.event { identifier, head, body } with
    | error cause => rfl
    | ok event =>
      have still := event_relocated_of_declared f produced
      simp only [Except.map, Step.relocated, pure, Except.pure, Option.map_some, still]
      rfl

private theorem read_relocated (reader : Reader) (t : Token) :
    (reader.relocated f).read (t.relocated f) =
      match reader.read t with
      | .ok step => .ok (step.relocated f)
      | .error e => .error (e.relocated f) := by
  cases reader with
  | idle => exact read_item_relocated f t
  | within identifier line stage =>
    have comment : (t.relocated f).isComment = t.isComment := rfl
    simp only [Reader.relocated, Reader.read, comment]
    split
    · rfl
    · rw [read_within_relocated]
      cases Reader.readWithin identifier stage t <;> rfl

private theorem reader_end_fault_relocated (reader : Reader) (fault : Option Error) :
    (reader.relocated f).endFault (fault.map (Error.relocated f)) =
      (reader.endFault fault).map (Error.relocated f) := by
  cases reader <;> cases fault <;> rfl

/-- Reading tokens on other lines gives what reading them gives, on other lines. -/
theorem run_relocated (fault : Option Error) (reader : Reader) (tokens : List Token) :
    Reader.run (fault.map (Error.relocated f)) (reader.relocated f)
        (tokens.map (Token.relocated f)) =
      (Reader.run fault reader tokens).relocated f := by
  induction tokens generalizing reader with
  | nil => simp only [List.map_nil, Reader.run, reader_end_fault_relocated]; rfl
  | cons t rest ih =>
    simp only [List.map_cons, Reader.run, read_relocated]
    cases reader.read t with
    | error e => rfl
    | ok step =>
      simp only [Step.relocated, ih, Outcome.after, Outcome.relocated, List.map_append]
      cases step.event <;> cases step.warning <;> rfl

end TypeDescription
