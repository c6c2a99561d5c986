import TypeDescription.Proofs.Blame
import TypeDescription.Proofs.Relocation

/-!
Comments are invisible to the grammar. Inside a definition a comment changes nothing at all, and
between items it is an event of its own and leaves the reader idle; so what is read of the other
tokens is what would be read of them alone. Since lines decide nothing either, two sources whose
tokens differ in their comments and in their lines only are read alike.
-/

namespace TypeDescription

/-! ## Tokens without comments -/

/-- The tokens that are no comments. -/
def withoutComments (tokens : List Token) : List Token := tokens.filter fun t => !t.isComment

/-- A comment is an event if the reader is idle, and nothing otherwise. -/
private theorem read_of_comment {t : Token} (comment : t.isComment = true) (reader : Reader) :
    ∃ event, reader.read t = .ok { reader, event, warning := none } ∧ ∀ e ∈ event, e.isComment = true := by
  cases reader with
  | idle =>
    obtain ⟨kind, text, line, lastLine⟩ := t
    cases kind <;> cases comment
    all_goals exact ⟨_, rfl, fun e produced => by cases produced; rfl⟩
  | within identifier line stage =>
    exact ⟨none, by rw [Reader.read, if_pos comment], fun e produced => nomatch produced⟩

/-- Any other token does not bring about a comment. -/
private theorem event_of_other {t : Token} (plain : t.isComment = false) {reader : Reader} {step : Step}
    (taken : reader.read t = .ok step) : ∀ e ∈ step.event, e.isComment = false := by
  intro e produced
  cases Reader.taken_of_read taken with
  | item answer =>
    obtain ⟨kind, text, line, lastLine⟩ := t
    cases kind <;> cases plain <;> cases answer <;> cases produced
    rfl
  | comment => cases produced
  | next => cases produced
  | complete _ meant =>
    cases produced
    exact Declaration.is_comment_event meant

/-- What is read of tokens, without the comments, is what is read of the tokens without the comments. -/
theorem run_without_comments (fault : Option Error) (reader : Reader) (tokens : List Token) :
    (Reader.run fault reader tokens).withoutComments = Reader.run fault reader (withoutComments tokens) := by
  induction tokens generalizing reader with
  | nil => rfl
  | cons t rest ih =>
    rw [Reader.run]
    by_cases comment : t.isComment = true
    · obtain ⟨event, taken, comments⟩ := read_of_comment comment reader
      have same : withoutComments (t :: rest) = withoutComments rest := by simp [withoutComments, comment]
      rw [taken, same, ← ih]
      cases event with
      | none => rfl
      | some e => simp [Outcome.after, Outcome.withoutComments, comments e rfl]
    · have plain : t.isComment = false := by simpa using comment
      have same : withoutComments (t :: rest) = t :: withoutComments rest := by simp [withoutComments, plain]
      rw [same, Reader.run]
      cases taken : reader.read t with
      | error e => rfl
      | ok step =>
        have others := event_of_other plain taken
        simp only [← ih]
        cases produced : step.event with
        | none => simp [Outcome.after, Outcome.withoutComments, produced]
        | some e =>
          have other : e.isComment = false := others e produced
          simp [Outcome.after, Outcome.withoutComments, produced, other]

/-! ## Tokens without places -/

/-- An event without its line. -/
def Event.unplaced : Event → Event := Event.relocated fun _ => 0

/-- What is wrong, and in which definition. -/
def Error.blame (e : Error) : Cause × Option String := (e.cause, e.identifier)

private theorem blame_relocated (f : Nat → Nat) : Error.blame ∘ Error.relocated f = Error.blame := rfl

private theorem blame_of_read (options : ReadOptions) (source : Source) :
    (source.read options).error.map Error.blame = source.readAll.error.map Error.blame := by
  rw [read_error]
  cases options.name with
  | none => rfl
  | some name =>
    rw [Option.map_map]
    rfl

private theorem events_without_comments (name : Option String) (source : Source) :
    (source.read { name, comments := false }).events = source.readAll.withoutComments.events := by
  rw [read_events]
  rfl

/-- Tokens that differ in comments and places only are read alike, but for comments and places. -/
theorem run_of_significant {first second : List Token} (same : significant first = significant second) :
    (Reader.run none .idle first).withoutComments.relocated (fun _ => 0) =
      (Reader.run none .idle second).withoutComments.relocated (fun _ => 0) := by
  have places (tokens : List Token) : (withoutComments tokens).map (Token.relocated fun _ => 0) =
      (significant tokens).map fun piece => { kind := piece.1, text := piece.2, line := 0, lastLine := 0 } := by
    rw [significant, List.map_map]
    rfl
  have alike := run_relocated (fun _ => 0) none .idle (withoutComments first)
  rw [places, same, ← places, run_relocated] at alike
  rw [run_without_comments, run_without_comments, alike]

/-! ## Comments that are events -/

/-- The comment that an item is. -/
def Item.comment? : Item → Option Token
  | comment t => some t
  | _ => none

/-- The event of a comment. -/
def Token.comment (t : Token) : Event :=
  if t.kind = .lineComment then .lineComment t.text t.line else .blockComment t.text t.line

/-- Of the items that are read, the comments are those that are written between the definitions. -/
theorem comments_of_items {events : List Event} {items : List Item}
    (same : events.map .ok = items.map Item.event) :
    events.filter Event.isComment = (items.filterMap Item.comment?).map Token.comment := by
  induction items generalizing events with
  | nil =>
    obtain rfl := List.map_eq_nil_iff.mp same
    rfl
  | cons item rest ih =>
    obtain ⟨e, later, rfl, meant, more⟩ := List.map_eq_cons_iff.mp same
    cases item with
    | comment t =>
      have here : e = t.comment := by
        rw [Item.event, ← apply_ite Except.ok] at meant
        exact Except.ok.inj meant
      have comment : t.comment.isComment = true := by
        rw [Token.comment]
        split <;> rfl
      rw [here, List.filter_cons_of_pos comment, ih more]
      rfl
    | letterSet t =>
      cases meant
      rw [List.filter_cons_of_neg Bool.false_ne_true, ih more]
      rfl
    | definition d name inner dot =>
      have other := d.is_comment_event meant.symm
      rw [List.filter_cons_of_neg (by rw [other]; exact Bool.false_ne_true), ih more]
      rfl

/-- What is left over after the items begins with no comment: it begins with the definition that the
error is in, or with the token that is the error. -/
def Error.BeginsWith (e : Error) (t : Token) : Prop :=
  t.isComment = false ∧
    if t.kind = .identifier then e.identifier = some t.text
    else e.cause = .unexpectedToken t.written ∧ e.line = some t.line

/-- Whatever is left over, there is an error at its beginning. -/
theorem error_begins_with {source : Source} {items : List Item} {t : Token} {later : List Token}
    (itemizes : Itemizes source.scan.tokens items (t :: later)) :
    ∃ e, source.readAll.error = some e ∧ e.BeginsWith t := by
  have standard := scan_tokens_standard source
  obtain ⟨-, -, same⟩ := itemizes.run source.scan.error standard
  have refused : source.readAll.error ≠ none := fun accepted =>
    List.cons_ne_nil _ _ ((itemizes.run_rest source.scan.error standard).2 (same.symm.trans accepted))
  obtain ⟨e, failed⟩ := Option.ne_none_iff_exists'.mp refused
  obtain ⟨plain, noLetters⟩ := itemizes.head_rest
  refine ⟨e, failed, plain, ?_⟩
  split
  · next kind =>
    have opener : opened? (t :: later) = some t := by simp [opened?, kind]
    obtain ⟨cause, n, -, -, rfl⟩ := itemizes.place_of_error failed
    rw [opener]
    rfl
  · next kind =>
    rw [← Source.readAll, Reader.run, Reader.read, Reader.read_item_unexpected plain noLetters kind] at same
    cases failed.symm.trans same
    exact ⟨rfl, rfl⟩

/-! ## Comments are invisible -/

/-- Comments are invisible to the grammar. Sources that are scanned without a fault, and whose tokens
are the same but for comments and lines, yield the same events, but for their lines, and the same
error, but for its line, if comments are not wanted. If they are wanted, the comments are exactly
those that stand between the items that are read, in order; and what is left over begins with the
definition that the error is in, or with the token that is the error. -/
theorem comments_invisible (name : Option String) (source : Source) :
    (∀ (other : Source) (name' : Option String), source.scan.error = none → other.scan.error = none →
      significant source.scan.tokens = significant other.scan.tokens →
      (source.read { name, comments := false }).events.map Event.unplaced =
          (other.read { name := name', comments := false }).events.map Event.unplaced ∧
        (source.read { name, comments := false }).error.map Error.blame =
          (other.read { name := name', comments := false }).error.map Error.blame) ∧
    ∃ items rest, Itemizes source.scan.tokens items rest ∧
      (source.read { name, comments := true }).events.map .ok = items.map Item.event ∧
      (source.read { name, comments := true }).events.filter Event.isComment =
        (items.filterMap Item.comment?).map Token.comment ∧
      ∀ t later, rest = t :: later →
        ∃ e, (source.read { name, comments := true }).error = some e ∧ e.BeginsWith t := by
  refine ⟨fun other name' scanned scanned' same => ?_, ?_⟩
  · have alike := run_of_significant same
    constructor
    · rw [events_without_comments, events_without_comments, Source.readAll, Source.readAll, scanned, scanned']
      exact congrArg Outcome.events alike
    · rw [blame_of_read, blame_of_read, Source.readAll, Source.readAll, scanned, scanned']
      have blame := congrArg (fun o => o.error.map Error.blame) alike
      simpa only [Outcome.relocated, Outcome.withoutComments, Option.map_map, blame_relocated] using blame
  · have standard := scan_tokens_standard source
    obtain ⟨items, rest, itemizes⟩ := exists_itemizes standard
    have events := (itemizes.run source.scan.error standard).1
    have same : (source.read { name, comments := true }).events = source.readAll.events := by
      rw [read_events]
      simp
    rw [← Source.readAll] at events
    rw [same]
    refine ⟨items, rest, itemizes, events, comments_of_items events, fun t later left => ?_⟩
    subst left
    obtain ⟨e, failed, begins⟩ := error_begins_with itemizes
    cases name with
    | none => exact ⟨e, failed, begins⟩
    | some name =>
      refine ⟨e.withSource name, ?_, begins⟩
      rw [read_error, failed]
      rfl

/-- Comments before an operator, in a list and before a dot, and one after it. Without them both
sources end with the same error in the second definition, on other lines. -/
theorem comments_invisible_within_definitions :
    let source := Source.ofText "a #|\n|# := b & < ; c\n> ; d\n. ; e\n%(f g)\nh := i ; j\nk."
    let other := Source.ofText "a := b & < > . %(f g)\nh := i k."
    source.scan.error = none ∧ other.scan.error = none ∧
      significant source.scan.tokens = significant other.scan.tokens ∧
      (source.read .plain).events.map Event.unplaced = (other.read .plain).events.map Event.unplaced ∧
      (source.read .plain).error.map Error.blame = (other.read .plain).error.map Error.blame ∧
      (source.read .plain).error.map (·.line) = some (some 7) ∧
      (source.read .plain).error.map Error.blame = some (.missingDot, some "h") := by
  intro source other
  have scanned : source.scan.error = none := by decide +kernel
  have scanned' : other.scan.error = none := by decide +kernel
  have same : significant source.scan.tokens = significant other.scan.tokens := by decide +kernel
  have alike := (comments_invisible none source).1 other none scanned scanned' same
  exact ⟨scanned, scanned', same, alike.1, alike.2, by decide +kernel, by decide +kernel⟩

end TypeDescription
