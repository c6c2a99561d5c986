import TypeDescription.Stream
import TypeDescription.Token.Stream

/-!
Reading a source on request. Each request takes tokens until an item is complete and leaves the rest
of the source alone; comments that are not wanted are passed over. The end of the source and the
first error let go of the source, and later requests get nothing.
-/

namespace TypeDescription

namespace TokenStream

/-- A token that is handed out is no longer left. -/
theorem left_of_next {s rest : TokenStream} {t : Token} (next : s.next = (some (.ok t), rest)) :
    s.left = (t :: rest.left.1, rest.left.2) := by
  have answers := s.next_answers
  rw [next] at answers
  obtain ⟨left⟩ := answers
  exact left

/-- What a reader makes of the tokens that are left. -/
def outcome (s : TokenStream) (reader : Reader) : Outcome := reader.run s.left.2 s.left.1

end TokenStream

/-- What is read up to the end of an item. -/
structure Reading where
  /-- The event, or nothing at the end of the source. -/
  result : Except Error (Option Event)
  warnings : List Warning
  rest : TokenStream

namespace Reading

/-- The tokens end, with an error or without one. -/
def ended (error : Option Error) : Reading :=
  { result := match error with
      | some e => .error e
      | none => .ok none
    warnings := []
    rest := .ended }

end Reading

namespace Reader

/-- Reads up to the end of the next item. -/
def readOn (reader : Reader) (tokens : TokenStream) : Reading :=
  match _next : tokens.next with
  | (none, _) => .ended (reader.endFault none)
  | (some (.error fault), _) => .ended (reader.endFault (some fault))
  | (some (.ok t), rest) =>
    match reader.read t with
    | .error e => .ended (some e)
    | .ok { event := some event, warning, .. } => { result := .ok (some event), warnings := warning.toList, rest }
    | .ok { reader, event := none, warning } =>
      let later := readOn reader rest
      { later with warnings := warning.toList ++ later.warnings }
termination_by tokens.left.1.length
decreasing_by rw [TokenStream.left_of_next _next]; exact Nat.lt_succ_self _

/-- What a reading takes from the tokens: their first event, and what comes after it is left; or all that
there is to them. -/
def Reads (reader : Reader) (tokens : TokenStream) (reading : Reading) : Prop :=
  match reading.result with
  | .ok (some event) =>
    reading.rest.left.1.length < tokens.left.1.length ∧
      tokens.outcome reader =
        { events := event :: (reading.rest.outcome .idle).events
          warnings := reading.warnings ++ (reading.rest.outcome .idle).warnings
          error := (reading.rest.outcome .idle).error }
  | .ok none => tokens.outcome reader = { events := [], warnings := reading.warnings, error := none }
  | .error e => tokens.outcome reader = { events := [], warnings := reading.warnings, error := some e }

/-- With an event an item is complete. -/
theorem idle_of_event {reader : Reader} {t : Token} {step : Step} {event : Event}
    (taken : reader.read t = .ok step) (complete : step.event = some event) : step.reader = idle := by
  cases taken_of_read taken with
  | item answer =>
    rw [readItem] at answer
    split at answer <;> cases answer <;> first | rfl | cases complete
  | comment => cases complete
  | next => cases complete
  | complete => rfl

theorem reads_ended {reader : Reader} {tokens : TokenStream} {error : Option Error}
    (all : tokens.outcome reader = { events := [], warnings := [], error }) :
    reader.Reads tokens (.ended error) := by
  cases error <;> exact all

/-- To take a token first that completes no item changes nothing but the warnings. -/
theorem reads_after {reader later : Reader} {tokens rest : TokenStream} {t : Token} {warning : Option Warning}
    (next : tokens.next = (some (.ok t), rest))
    (taken : reader.read t = .ok { reader := later, event := none, warning }) {reading : Reading}
    (reads : later.Reads rest reading) :
    reader.Reads tokens { reading with warnings := warning.toList ++ reading.warnings } := by
  have left := TokenStream.left_of_next next
  have all : tokens.outcome reader = (rest.outcome later).after { reader := later, event := none, warning } := by
    rw [TokenStream.outcome, left, run, taken]
    rfl
  obtain ⟨e | _ | event, warnings, beyond⟩ := reading
  · exact all.trans (congrArg _ reads)
  · exact all.trans (congrArg _ reads)
  · obtain ⟨shorter, below⟩ := reads
    refine ⟨?_, ?_⟩
    · rw [left]
      exact Nat.lt_succ_of_lt shorter
    · rw [all, below, Outcome.after, List.append_assoc]
      rfl

theorem read_on_reads (reader : Reader) (tokens : TokenStream) : reader.Reads tokens (reader.readOn tokens) := by
  fun_induction readOn reader tokens with
  | case1 reader tokens rest next =>
    have answers := tokens.next_answers
    rw [next] at answers
    cases answers with
    | nothing left => exact reads_ended (by rw [TokenStream.outcome, left, run])
  | case2 reader tokens fault rest next =>
    have answers := tokens.next_answers
    rw [next] at answers
    cases answers with
    | fault left => exact reads_ended (by rw [TokenStream.outcome, left, run])
  | case3 reader tokens t rest next e refused =>
    exact reads_ended (by rw [TokenStream.outcome, TokenStream.left_of_next next, run, refused])
  | case4 reader tokens t rest next reader' event warning taken =>
    have left := TokenStream.left_of_next next
    obtain rfl : reader' = idle := idle_of_event taken rfl
    refine ⟨by rw [left]; exact Nat.lt_succ_self _, ?_⟩
    rw [TokenStream.outcome, left, run, taken]
    rfl
  | case5 reader tokens t rest next reader' warning taken later ih => exact reads_after next taken ih

/-- An event takes at least one token. -/
theorem length_left_of_read_on {reader : Reader} {tokens : TokenStream} {event : Event}
    (complete : (reader.readOn tokens).result = .ok (some event)) :
    (reader.readOn tokens).rest.left.1.length < tokens.left.1.length := by
  have reads := reader.read_on_reads tokens
  rw [Reads, complete] at reads
  exact reads.1

end Reader

/-- A source from which items are requested one by one. -/
structure EventStream where
  options : ReadOptions
  /-- What is left of the source, until it is let go of. -/
  tokens : Option TokenStream
  /-- The warnings reported so far. -/
  warnings : List Warning

namespace Source

/-- A source before the first request. -/
def stream (options : ReadOptions) (source : Source) : EventStream :=
  { options, tokens := some (.ofSource source), warnings := [] }

end Source

namespace EventStream

/-- The next item, or nothing if there is none. -/
def next (s : EventStream) : Option (Except Error Event) × EventStream :=
  match _held : s.tokens with
  | none => (none, s)
  | some tokens =>
    let reading := Reader.idle.readOn tokens
    let later := { s with tokens := some reading.rest, warnings := s.warnings ++ reading.warnings }
    match _complete : reading.result with
    | .ok (some event) =>
      if event.isComment && !s.options.comments then later.next else (some (.ok event), later)
    | .ok none => (none, { later with tokens := none })
    | .error e => (some (.error (s.options.inSource e)), { later with tokens := none })
termination_by s.tokens.elim 0 (·.left.1.length)
decreasing_by
  rw [_held]
  exact Reader.length_left_of_read_on _complete

/-- The answers to a number of requests, and the stream after them. -/
def requests (n : Nat) (s : EventStream) : List (Option (Except Error Event)) × EventStream :=
  requestsTo next n s

end EventStream

end TypeDescription
