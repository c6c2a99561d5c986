import TypeDescription.Stream.Request

/-!
What requests get. A stream stands for the items that are left of its source, and a request takes
the first of them, with the warnings on the way to it. The last item may be an error; after it, or
when nothing is left, the source is let go of, and with it everything that could be requested. So
requests get the items in order, and then nothing, however many there are.
-/

namespace TypeDescription

/-! ## Items that are wanted -/

theorem length_items (o : Outcome) : o.items.length = o.events.length + o.error.toList.length := by
  rw [Outcome.items, List.length_append, List.length_map, List.length_map]

/-- Every event takes a token that completes it. -/
theorem Reader.length_events_run (fault : Option Error) (reader : Reader) (tokens : List Token) :
    (reader.run fault tokens).events.length ≤ tokens.length := by
  induction tokens generalizing reader with
  | nil => exact Nat.le_refl 0
  | cons t rest ih =>
    rw [run]
    split
    · next step _ =>
      have atMost : step.event.toList.length ≤ 1 := Option.length_toList_le
      have later := ih step.reader
      simp only [Outcome.after, List.length_append, List.length_cons]
      omega
    · exact Nat.zero_le _

theorem length_items_read (options : ReadOptions) (source : Source) :
    (source.read options).items.length ≤ source.scan.tokens.length + 1 := by
  have events : (source.read options).events.length ≤ source.scan.tokens.length := by
    rw [read_eq_apply, ReadOptions.events_apply]
    exact Nat.le_trans (List.length_filter_le ..) (Reader.length_events_run ..)
  rw [length_items]
  exact Nat.add_le_add events Option.length_toList_le

/-- The first event is wanted or not, whatever comes after it. -/
theorem ReadOptions.items_apply_event (options : ReadOptions) (event : Event) (warnings : List Warning)
    (later : Outcome) :
    (options.apply { later with events := event :: later.events, warnings := warnings ++ later.warnings }).items =
      if event.isComment && !options.comments then (options.apply later).items
      else .ok event :: (options.apply later).items := by
  simp only [Outcome.items, events_apply, error_apply, List.filter_cons]
  cases event.isComment <;> cases options.comments <;> rfl

theorem ReadOptions.apply_without_events (options : ReadOptions) (warnings : List Warning) (error : Option Error) :
    options.apply { events := [], warnings, error } =
      { events := [], warnings, error := error.map options.inSource } := by
  obtain ⟨name, comments⟩ := options
  cases name <;> cases comments <;> cases error <;> rfl

/-! ## One request -/

namespace EventStream

/-- What is left to be requested. -/
def left (s : EventStream) : Outcome :=
  match s.tokens with
  | some tokens => s.options.apply (tokens.outcome .idle)
  | none => { events := [], warnings := [], error := none }

theorem left_of_stream (options : ReadOptions) (source : Source) :
    (source.stream options).left = source.read options := rfl

theorem left_of_tokens {s : EventStream} {tokens : TokenStream} (held : s.tokens = some tokens) :
    s.left = s.options.apply (tokens.outcome .idle) := by
  rw [left, held]

theorem left_of_let_go {s : EventStream} (letGo : s.tokens = none) :
    s.left = { events := [], warnings := [], error := none } := by
  rw [left, letGo]

/-- What a request does to a stream. -/
structure Advances (s : EventStream) (request : Option (Except Error Event) × EventStream) : Prop where
  answer : request.1 = s.left.items.head?
  items : request.2.left.items = s.left.items.tail
  warnings : request.2.warnings ++ request.2.left.warnings = s.warnings ++ s.left.warnings
  /-- Only with an event there may be more to request. -/
  letGo : (∀ event, request.1 ≠ some (.ok event)) → request.2.tokens = none

theorem Advances.of_left {s s' : EventStream} {request : Option (Except Error Event) × EventStream}
    (items : s'.left.items = s.left.items)
    (warnings : s'.warnings ++ s'.left.warnings = s.warnings ++ s.left.warnings) (advances : s'.Advances request) :
    s.Advances request where
  answer := by rw [advances.answer, items]
  items := by rw [advances.items, items]
  warnings := advances.warnings.trans warnings
  letGo := advances.letGo

/-- With an error, or without one, the source is let go of. -/
theorem Advances.ended {s : EventStream} {warnings : List Warning} {error : Option Error}
    (left : s.left = { events := [], warnings, error }) :
    s.Advances (error.map .error, { s with tokens := none, warnings := s.warnings ++ warnings }) where
  answer := by rw [left]; cases error <;> rfl
  items := by rw [left]; cases error <;> rfl
  warnings := by rw [left]; exact List.append_nil _
  letGo := fun _ => rfl

/-- What is left before and after an event that may be wanted. -/
private theorem left_of_event {s : EventStream} {tokens rest : TokenStream} {event : Event}
    {warnings : List Warning} (held : s.tokens = some tokens)
    (all : tokens.outcome .idle =
      { events := event :: (rest.outcome .idle).events
        warnings := warnings ++ (rest.outcome .idle).warnings
        error := (rest.outcome .idle).error }) :
    let later := { s with tokens := some rest, warnings := s.warnings ++ warnings }
    (s.left.items = if event.isComment && !s.options.comments then later.left.items
      else .ok event :: later.left.items) ∧
      later.warnings ++ later.left.warnings = s.warnings ++ s.left.warnings := by
  intro later
  have left : later.left = s.options.apply (rest.outcome .idle) := rfl
  rw [left_of_tokens held, all, left]
  refine ⟨ReadOptions.items_apply_event .., ?_⟩
  rw [ReadOptions.warnings_apply, ReadOptions.warnings_apply]
  exact List.append_assoc ..

theorem next_advances (s : EventStream) : s.Advances s.next := by
  fun_induction next s with
  | case1 s held =>
    have left := left_of_let_go held
    exact { answer := by rw [left]; rfl, items := by rw [left]; rfl, warnings := rfl, letGo := fun _ => held }
  | case2 s tokens held reading later event complete unwanted ih =>
    have reads := Reader.idle.read_on_reads tokens
    rw [Reader.Reads, complete] at reads
    obtain ⟨items, warnings⟩ := left_of_event held reads.2
    rw [if_pos unwanted] at items
    exact ih.of_left items.symm warnings
  | case3 s tokens held reading later event complete wanted =>
    have reads := Reader.idle.read_on_reads tokens
    rw [Reader.Reads, complete] at reads
    obtain ⟨items, warnings⟩ := left_of_event held reads.2
    rw [if_neg wanted] at items
    exact { answer := by rw [items]; rfl, items := by rw [items]; rfl, warnings
            letGo := fun noEvent => absurd rfl (noEvent event) }
  | case4 s tokens held reading later complete =>
    have reads := Reader.idle.read_on_reads tokens
    rw [Reader.Reads, complete] at reads
    have left := left_of_tokens held
    rw [reads, ReadOptions.apply_without_events] at left
    exact .ended left
  | case5 s tokens held reading later e failed =>
    have reads := Reader.idle.read_on_reads tokens
    rw [Reader.Reads, failed] at reads
    have left := left_of_tokens held
    rw [reads, ReadOptions.apply_without_events] at left
    exact .ended left

/-! ## Any number of requests -/

/-- The answers are the items that are left, in order. -/
theorem requests_answers (n : Nat) (s : EventStream) :
    (s.requests n).1 = (List.range n).map fun request => s.left.items[request]? := by
  have advances (s : EventStream) : s.next.1 = s.left.items.head? ∧ s.next.2.left.items = s.left.items.tail :=
    ⟨s.next_advances.answer, s.next_advances.items⟩
  exact requests_to_answers advances n s

/-- Requests report the warnings in order, and lose none. -/
theorem requests_warnings (n : Nat) (s : EventStream) :
    (s.requests n).2.warnings ++ (s.requests n).2.left.warnings = s.warnings ++ s.left.warnings := by
  induction n generalizing s with
  | zero => rfl
  | succ n ih => exact (ih s.next.2).trans s.next_advances.warnings

/-- With an answer that is no event the source is let go of, and then requests get nothing. -/
theorem last_answers : LastAnswers next (fun answer => ∀ event, answer ≠ some (.ok event)) (·.tokens = none) where
  reached s := s.next_advances.letGo
  stays s letGo := by
    rw [next]
    split
    · rfl
    · next held => cases letGo.symm.trans held

/-- An answer that is no event is the end of the stream. -/
theorem requests_let_go {n : Nat} {s : EventStream} {answer : Option (Except Error Event)}
    (answered : answer ∈ (s.requests n).1) (noEvent : ∀ event, answer ≠ some (.ok event)) :
    (s.requests n).2.tokens = none := by
  obtain ⟨before, after, split⟩ := List.append_of_mem answered
  exact (last_answers.after split noEvent).2

end EventStream

/-- Requests get the events in order, then the error, and then nothing, and each of them takes a
token. Comments that are not wanted are left out, and nothing else. -/
theorem requests_in_order (source : Source) (name : Option String) :
    let all := source.read { name, comments := true }
    ∀ (comments : Bool) (n : Nat),
      let wanted := if comments then all.events else all.events.filter fun event => !event.isComment
      let items := wanted.map .ok ++ all.error.toList.map .error
      let asked := (source.stream { name, comments }).requests n
      asked.1 = ((List.range n).map fun request => items[request]?) ∧
        items.length ≤ source.scan.tokens.length + 1 ∧
        asked.2.warnings <+: all.warnings ∧
        ((∃ answer ∈ asked.1, ∀ event, answer ≠ some (.ok event)) → asked.2.warnings = all.warnings) := by
  intro all comments n wanted items asked
  let s := source.stream { name, comments }
  have left : s.left = if comments then all else all.withoutComments := by
    rw [EventStream.left_of_stream]
    cases comments with
    | true => rfl
    | false => exact read_without_comments name source
  have left_items : s.left.items = items := by
    rw [left]
    cases comments <;> rfl
  have warnings : asked.2.warnings ++ asked.2.left.warnings = all.warnings := by
    refine (EventStream.requests_warnings n s).trans ?_
    rw [left]
    cases comments <;> rfl
  refine ⟨?_, ?_, ⟨_, warnings⟩, fun ⟨answer, answered, noEvent⟩ => ?_⟩
  · rw [← left_items]
    exact EventStream.requests_answers n s
  · rw [← left_items, EventStream.left_of_stream]
    exact length_items_read ..
  · have letGo := EventStream.requests_let_go answered noEvent
    rw [← warnings, EventStream.left_of_let_go letGo, List.append_nil]

/-- The comment before the definition that is not finished is passed over, and the error is not. -/
theorem requests_in_order_past_comment :
    let source := Source.ofText "a :< b.\n; c\nd := e"
    let asked := (source.stream { name := none, comments := false }).requests 4
    asked.1.map (·.map (·.isOk)) = [some true, some false, none, none] ∧
      (∃ answer ∈ asked.1, ∀ event, answer ≠ some (.ok event)) ∧
      asked.2.warnings = (source.read { name := none, comments := true }).warnings ∧
      asked.2.warnings.length = 1 := by
  intro source asked
  obtain ⟨answers, -, -, whole⟩ := requests_in_order source none false 4
  have nothing : none ∈ asked.1 := by
    rw [answers]
    exact List.mem_map.mpr ⟨3, by decide, by decide +kernel⟩
  have ended : ∃ answer ∈ asked.1, ∀ event, answer ≠ some (.ok event) :=
    ⟨none, nothing, fun _ same => nomatch same⟩
  refine ⟨?_, ended, whole ended, ?_⟩
  · rw [answers]
    decide +kernel
  · rw [whole ended]
    decide +kernel

end TypeDescription
