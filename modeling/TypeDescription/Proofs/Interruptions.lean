import TypeDescription.Proofs.Concatenation

/-!
Sources that cannot be read to their end. Lines are asked for one at a time, and only when a token
is wanted that the lines read so far do not hold. So whatever stands after the first lines of a
source, another text, bytes that are no text, or nothing that can be read at all, makes no
difference to the events that are complete within them, and an error that is found there is found
in any case.
-/

namespace TypeDescription

/-! ## How far reading goes -/

/-- Does the token start and end within the first lines? -/
def Token.isWithin (lines : Nat) (t : Token) : Bool := t.line ≤ lines && t.lastLine ≤ lines

namespace Source

/-- How many lines have been asked for when reading ends: those up to the end of the token that the
reader refuses, or, if it refuses none, those that the scan asks for. -/
def linesAsked (source : Source) : Nat :=
  match Reader.idle.advance source.scan.tokens with
  | .error t => t.lastLine
  | .ok _ => TypeDescription.linesAsked 0 none source.lines

/-- Does reading end with an error before a line after the first ones is asked for? -/
def FailsWithin (lines : Nat) (source : Source) : Prop :=
  source.readAll.error ≠ none ∧ source.linesAsked ≤ lines

/-- The events that are wanted, each with the token that completes it. -/
def deliveries (options : ReadOptions) (source : Source) : List (Token × Event) :=
  (Reader.idle.deliveries source.scan.tokens).filter fun delivery =>
    options.comments || !delivery.2.isComment

/-- The events that are wanted, of those that tokens within the first lines complete. -/
def eventsWithin (options : ReadOptions) (lines : Nat) (source : Source) : List Event :=
  ((source.deliveries options).filter fun delivery => delivery.1.isWithin lines).map (·.2)

/-- All events, comments included, that tokens within the first lines complete. -/
def completedWithin (lines : Nat) (source : Source) : List Event :=
  ((Reader.idle.deliveries source.scan.tokens).filter fun delivery => delivery.1.isWithin lines).map (·.2)

/-- The first lines of some bytes. -/
def firstLines (lines : Nat) (bytes : List UInt8) : List UInt8 :=
  ((splitAfter (· == 10) bytes).take lines).flatten

/-- A source of which nothing can be read after its first bytes: reading fails there, or the next
line is no text. -/
inductive FailsAfter (first : List UInt8) : Source → Prop where
  | unreadable (reason : String) : FailsAfter first (ofBytes first (some reason))
  | notText {rest line : List UInt8} {later : List (List UInt8)} {failure : Option String}
    (next : splitAfter (· == 10) rest = line :: later)
    (whole : failure = none ∨ line.getLast? = some 10)
    (invalid : String.fromUTF8? ⟨line.toArray⟩ = none) :
    FailsAfter first (ofBytes (first ++ rest) failure)

end Source

/-! ## Sources with the same first lines -/

/-- Reading ends with an error within the first lines, and this is all that is read. -/
private structure EndsWithin (lines : Nat) (outcome : Outcome) (source : Source) : Prop where
  reads : source.readAll = outcome
  fails : source.FailsWithin lines
  completed : source.completedWithin lines = outcome.events

/-- Reading goes on after the first lines, and this is what is read within them. -/
private structure GoesBeyond (lines : Nat) (outcome : Outcome) (source : Source) : Prop where
  reads : ∃ later, source.readAll = outcome.followedBy later
  goesOn : ¬ source.FailsWithin lines
  completed : source.completedWithin lines = outcome.events

section Tokens

variable {lines : Nat} {source : Source} {tokens : List Token}

private theorem within_of_length_le (failure : Option String) {text : List (List Char)}
    (short : text.length ≤ lines) :
    ∀ t ∈ (scanLines failure 0 none text).tokens, t.isWithin lines = true := by
  intro t member
  obtain ⟨-, upTo, started⟩ := scan_lines_token_lines _ 0 none _ t member
  have started := started fun _ held => nomatch held
  have ended : t.lastLine ≤ lines := by omega
  simp [Token.isWithin, ended, Nat.le_trans started ended]

private theorem completed_of_within (within : ∀ t ∈ tokens, t.isWithin lines = true)
    (fault : Option Error) :
    ((Reader.idle.deliveries tokens).filter fun delivery => delivery.1.isWithin lines).map (·.2) =
      (Reader.run fault .idle tokens).events := by
  rw [Reader.run_events, List.filter_eq_self.mpr]
  exact fun delivery member => within delivery.1 (Reader.delivered_by _ _ delivery member)

private theorem last_line_of_within {t : Token} (within : t.isWithin lines = true) :
    t.lastLine ≤ lines := by
  rw [Token.isWithin, Bool.and_eq_true] at within
  exact of_decide_eq_true within.2

/-- A fault of the scan within the first lines ends what is read, if no token is refused before. -/
private theorem ends_within_of_fault {fault : Error} {stop : Nat}
    (scanned : source.scan = { tokens, error := some fault, linesRead := stop })
    (within : ∀ t ∈ tokens, t.isWithin lines = true) (asked : linesAsked 0 none source.lines ≤ lines) :
    EndsWithin lines (Reader.run (some fault) .idle tokens) source := by
  have reads : source.readAll = Reader.run (some fault) .idle tokens := by rw [Source.readAll, scanned]
  refine ⟨reads, ⟨?_, ?_⟩, ?_⟩
  · rw [reads]
    exact run_error_of_fault _ _
  · rw [Source.linesAsked, scanned]
    split
    · next t refused => exact last_line_of_within (within t (Reader.refused_mem refused))
    · exact asked
  · rw [Source.completedWithin, scanned]
    exact completed_of_within within _

/-- A token that is refused within the first lines ends what is read. -/
private theorem ends_within_of_refused {t : Token} {second : List Token}
    (within : ∀ t ∈ tokens, t.isWithin lines = true) (refused : Reader.idle.advance tokens = .error t)
    (scanned : source.scan.tokens = tokens ++ second) :
    EndsWithin lines (Reader.run none .idle tokens) source := by
  obtain ⟨outcome, refused', delivered⟩ := Reader.cut_of_refused refused source.scan.error second
  have reads : source.readAll = Reader.run none .idle tokens := by rw [Source.readAll, scanned, outcome]
  refine ⟨reads, ⟨?_, ?_⟩, ?_⟩
  · rw [reads]
    exact Reader.error_of_refused refused
  · rw [Source.linesAsked, scanned, refused']
    exact last_line_of_within (within t (Reader.refused_mem refused))
  · rw [Source.completedWithin, scanned, delivered]
    exact completed_of_within within none

/-- If all tokens within the first lines are taken, what is read goes on after them. -/
private theorem goes_beyond_of_taken {reader : Reader} {second : List Token}
    (within : ∀ t ∈ tokens, t.isWithin lines = true) (taken : Reader.idle.advance tokens = .ok reader)
    (scanned : source.scan.tokens = tokens ++ second) (beyond : ∀ t ∈ second, lines < t.lastLine)
    (asked : lines < linesAsked 0 none source.lines) :
    GoesBeyond lines (Reader.run none .idle tokens) source := by
  obtain ⟨outcome, advanced, delivered⟩ := Reader.cut_of_taken taken source.scan.error second
  refine ⟨⟨_, by rw [Source.readAll, scanned, outcome]⟩, fun fails => ?_, ?_⟩
  · have upTo := fails.2
    rw [Source.linesAsked, scanned, advanced] at upTo
    split at upTo
    · next t refused => exact Nat.not_le_of_lt (beyond t (Reader.refused_mem refused)) upTo
    · exact Nat.not_le_of_lt asked upTo
  · have later : (reader.deliveries second).filter (fun delivery => delivery.1.isWithin lines) = [] := by
      rw [List.filter_eq_nil_iff]
      intro delivery member inside
      have after := beyond delivery.1 (Reader.delivered_by _ _ delivery member)
      exact Nat.not_le_of_lt after (last_line_of_within inside)
    rw [Source.completedWithin, scanned, delivered, List.filter_append, later, List.append_nil]
    exact completed_of_within within none

end Tokens

/-- Either reading ends in the same way within these lines, whatever follows them, or it goes on
after them, and what they complete does not depend on what follows. -/
private theorem read_all_cut (lines : List (List Char)) :
    (∃ outcome, ∀ rest failure,
      EndsWithin lines.length outcome { lines := lines ++ rest, failure }) ∨
    ∃ (outcome : Outcome) (reader : Reader),
      (∀ reason, ({ lines, failure := some reason } : Source).readAll = outcome.followedBy
        { events := [], warnings := []
          error := reader.endFault (some (.onLine (.unreadable reason) (lines.length + 1))) }) ∧
      ∀ rest failure, GoesBeyond lines.length outcome { lines := lines ++ rest, failure } := by
  have within := within_of_length_le none (Nat.le_refl lines.length)
  rcases scan_lines_cut 0 none lines with ⟨tokens, fault, stop, bound, scanned⟩ | ⟨tokens, left, scanned⟩
  · have alone := (scanned none []).1
    rw [List.append_nil] at alone
    refine .inl ⟨Reader.run (some fault) .idle tokens, fun rest failure => ?_⟩
    obtain ⟨scan, asked⟩ := scanned failure rest
    exact ends_within_of_fault scan (fun t member => within t (by rwa [alone])) (by rw [asked]; omega)
  · have alone := (scanned none []).1
    rw [List.append_nil] at alone
    have inside (t : Token) (member : t ∈ tokens) : t.isWithin lines.length = true :=
      within t (by rw [alone]; exact List.mem_append_left _ member)
    have tokens_scanned (rest failure) : ({ lines := lines ++ rest, failure } : Source).scan.tokens =
        tokens ++ (scanLines failure (0 + lines.length) left rest).tokens := by
      rw [Source.scan, (scanned failure rest).1]
      rfl
    cases taken : Reader.idle.advance tokens with
    | error t =>
      exact .inl ⟨_, fun rest failure => ends_within_of_refused inside taken (tokens_scanned rest failure)⟩
    | ok reader =>
      refine .inr ⟨Reader.run none .idle tokens, reader, fun reason => ?_, fun rest failure => ?_⟩
      · have whole := (scanned (some reason) []).1
        rw [List.append_nil] at whole
        have fault : endFault (some reason) (0 + lines.length) left =
            some (.onLine (.unreadable reason) (lines.length + 1)) := by rw [Nat.zero_add, endFault]
        rw [Source.readAll, Source.scan, whole, Scan.after, scanLines, fault]
        exact (Reader.cut_of_taken taken _ []).1
      · refine goes_beyond_of_taken inside taken (tokens_scanned rest failure) (fun t member => ?_) ?_
        · have after := (scan_lines_token_lines failure _ left rest t member).1
          omega
        · rw [(scanned failure rest).2]
          have after := (lines_asked_bounds (0 + lines.length) left rest).1
          omega

/-! ## Bytes -/

/-- Either one of the first lines is no text, and ends the source, or they stand before what follows
them. -/
private theorem of_byte_lines_append (first : List (List UInt8)) :
    (∃ lines : List (List Char), lines.length < first.length ∧ ∀ rest failure,
      Source.ofByteLines (first ++ rest) failure = { lines, failure := some Source.notText }) ∨
    ∃ lines : List (List Char), lines.length = first.length ∧ ∀ rest failure,
      Source.ofByteLines (first ++ rest) failure =
        { lines := lines ++ (Source.ofByteLines rest failure).lines
          failure := (Source.ofByteLines rest failure).failure } := by
  induction first with
  | nil => exact .inr ⟨[], rfl, fun rest failure => rfl⟩
  | cons bytes first ih =>
    simp only [List.cons_append, Source.ofByteLines, List.length_cons]
    cases String.fromUTF8? ⟨bytes.toArray⟩ with
    | none => exact .inl ⟨[], Nat.succ_pos _, fun rest failure => rfl⟩
    | some line =>
      rcases ih with ⟨lines, shorter, same⟩ | ⟨lines, length, same⟩
      · refine .inl ⟨dropReturn line.toList :: lines, Nat.succ_lt_succ shorter, fun rest failure => ?_⟩
        rw [same]
      · refine .inr ⟨dropReturn line.toList :: lines, congrArg Nat.succ length, fun rest failure => ?_⟩
        rw [same]
        rfl

/-- Complete lines are read before what follows them. -/
private theorem of_bytes_append {first : List UInt8} (complete : Complete (· == 10) first)
    (rest : List UInt8) (failure : Option String) :
    ∃ later, Source.ofBytes (first ++ rest) failure =
        Source.ofByteLines (splitAfter (· == 10) first ++ later) failure ∧
      Source.ofBytes rest failure = Source.ofByteLines later failure := by
  cases failure with
  | none =>
    refine ⟨splitAfter (· == 10) rest, ?_, rfl⟩
    simp only [Source.ofBytes, split_after_append _ rest complete]
  | some reason =>
    refine ⟨completePieces (· == 10) (splitAfter (· == 10) rest), ?_, rfl⟩
    have kept := complete_pieces_of_complete complete
    rw [completePieces] at kept
    simp only [Source.ofBytes, split_after_append _ rest complete, completePieces, List.filter_append, kept]

/-- What the first lines of some bytes are. -/
private theorem first_lines_spec {bytes : List UInt8} {k : Nat} (enough : k ≤ bytes.count 10) :
    Complete (· == 10) (Source.firstLines k bytes) ∧ (Source.firstLines k bytes).count 10 = k ∧
      ∃ rest, bytes = Source.firstLines k bytes ++ rest := by
  obtain ⟨first, rest, rfl, complete, count⟩ := exists_first_pieces (· == 10) enough
  have pieces := length_split_after (· == 10) complete
  have same : Source.firstLines k (first ++ rest) = first := by
    rw [Source.firstLines, split_after_append _ rest complete, List.take_left' (pieces.trans count),
      flatten_splitAfter]
  rw [same]
  exact ⟨complete, count, rest, rfl⟩

/-- Nothing is read of what follows the first lines in an interrupted source. -/
private theorem fails_after_shape {first : List UInt8} {cut : Source} (fails : Source.FailsAfter first cut) :
    ∃ rest failure reason, cut = Source.ofBytes (first ++ rest) failure ∧
      Source.ofBytes rest failure = Source.failing reason := by
  cases fails with
  | unreadable reason => exact ⟨[], some reason, reason, by rw [List.append_nil], rfl⟩
  | @notText rest line later failure next whole invalid =>
    refine ⟨rest, failure, Source.notText, rfl, ?_⟩
    cases failure with
    | none =>
      simp only [Source.ofBytes, next, Source.ofByteLines, invalid]
      rfl
    | some reason =>
      have ends : line.getLast? = some 10 := whole.resolve_left (Option.some_ne_none reason)
      simp only [Source.ofBytes, next, completePieces, List.filter_cons, ends, Option.any_some,
        beq_self_eq_true, if_true, Source.ofByteLines, invalid]
      rfl

/-- Either reading ends in the same way within the first lines, whatever follows them, or it goes on
after them. -/
private theorem read_all_cut_bytes {first : List UInt8} (complete : Complete (· == 10) first) :
    (∃ outcome, ∀ rest failure,
      EndsWithin (first.count 10) outcome (Source.ofBytes (first ++ rest) failure)) ∨
    ∃ (outcome : Outcome) (reader : Reader),
      (∀ rest failure reason, Source.ofBytes rest failure = Source.failing reason →
        (Source.ofBytes (first ++ rest) failure).readAll = outcome.followedBy
          { events := [], warnings := []
            error := reader.endFault (some (.onLine (.unreadable reason) (first.count 10 + 1))) }) ∧
      ∀ rest failure, GoesBeyond (first.count 10) outcome (Source.ofBytes (first ++ rest) failure) := by
  have count : (splitAfter (· == 10) first).length = first.count 10 := length_split_after _ complete
  rcases of_byte_lines_append (splitAfter (· == 10) first) with ⟨lines, shorter, same⟩ | ⟨lines, length, same⟩
  · let source : Source := { lines, failure := some Source.notText }
    have faulty : source.scan.error ≠ none := by
      rcases scan_lines_cut 0 none lines with ⟨tokens, fault, stop, -, scanned⟩ | ⟨tokens, left, scanned⟩
      all_goals
        have whole := (scanned (some Source.notText) []).1
        rw [List.append_nil] at whole
        rw [Source.scan, whole]
        exact Option.some_ne_none _
    obtain ⟨fault, faulty⟩ := Option.ne_none_iff_exists'.mp faulty
    have bound : source.lines.length + 1 ≤ first.count 10 := by rw [← count]; exact shorter
    have asked := (lines_asked_bounds 0 none source.lines).2
    refine .inl ⟨Reader.run (some fault) .idle source.scan.tokens, fun rest failure => ?_⟩
    obtain ⟨later, shape, -⟩ := of_bytes_append complete rest failure
    rw [shape, same]
    have scanned : source.scan =
        { tokens := source.scan.tokens, error := some fault, linesRead := source.scan.linesRead } := by
      rw [← faulty]
    exact ends_within_of_fault scanned (within_of_length_le _ (Nat.le_of_succ_le bound))
      (asked.trans (by omega))
  · rw [count] at length
    rw [← length]
    rcases read_all_cut lines with ⟨outcome, ends⟩ | ⟨outcome, reader, stops, goesOn⟩
    · refine .inl ⟨outcome, fun rest failure => ?_⟩
      obtain ⟨later, shape, -⟩ := of_bytes_append complete rest failure
      rw [shape, same]
      exact ends _ _
    · refine .inr ⟨outcome, reader, fun rest failure reason failing => ?_, fun rest failure => ?_⟩
      · obtain ⟨later, shape, after⟩ := of_bytes_append complete rest failure
        rw [shape, same, ← after, failing, Source.failing, List.append_nil]
        exact stops reason
      · obtain ⟨later, shape, -⟩ := of_bytes_append complete rest failure
        rw [shape, same]
        exact goesOn _ _

/-! ## Events that are wanted -/

theorem read_events (options : ReadOptions) (source : Source) :
    (source.read options).events =
      source.readAll.events.filter fun event => options.comments || !event.isComment :=
  options.events_apply source.readAll

theorem read_warnings (options : ReadOptions) (source : Source) :
    (source.read options).warnings = source.readAll.warnings :=
  options.warnings_apply source.readAll

theorem read_error (options : ReadOptions) (source : Source) :
    (source.read options).error = match options.name with
      | some name => source.readAll.error.map (·.withSource name)
      | none => source.readAll.error := by
  obtain ⟨name, comments⟩ := options
  cases name <;> cases comments <;> rfl

theorem events_within_eq (options : ReadOptions) (lines : Nat) (source : Source) :
    source.eventsWithin options lines =
      (source.completedWithin lines).filter fun event => options.comments || !event.isComment := by
  rw [Source.eventsWithin, Source.deliveries, Source.completedWithin, List.filter_map, List.filter_comm]
  rfl

private theorem interruption_error (options : ReadOptions) {source : Source} {reader : Reader}
    {reason : String} {line : Nat}
    (stopped : source.readAll.error = reader.endFault (some (.onLine (.unreadable reason) line))) :
    ∃ e, (source.read options).error = some e ∧ e.cause = .unreadable reason ∧ e.line = some line := by
  obtain ⟨e, failed, cause, at_line⟩ : ∃ e, source.readAll.error = some e ∧
      e.cause = .unreadable reason ∧ e.line = some line := by
    rw [stopped]
    cases reader <;> exact ⟨_, rfl, rfl, rfl⟩
  rw [read_error, failed]
  cases options.name with
  | none => exact ⟨e, rfl, cause, at_line⟩
  | some name => exact ⟨e.withSource name, rfl, cause, at_line⟩

/-- Events depend only on the lines read so far. -/
theorem read_interrupted (options : ReadOptions) {bytes : List UInt8} (failure : Option String) {k : Nat}
    (enough : k ≤ bytes.count 10) {cut : Source}
    (fails : Source.FailsAfter (Source.firstLines k bytes) cut) :
    let source := Source.ofBytes bytes failure
    (source.FailsWithin k → cut.read options = source.read options) ∧
      (¬ source.FailsWithin k →
        (∃ e reason, (cut.read options).items = (source.eventsWithin options k).map .ok ++ [.error e] ∧
          e.cause = .unreadable reason ∧ e.line = some (k + 1)) ∧
        (cut.read options).warnings <+: (source.read options).warnings) ∧
      ∀ rest failure', (Source.ofBytes (Source.firstLines k bytes ++ rest) failure').eventsWithin options k =
        source.eventsWithin options k := by
  intro source
  obtain ⟨complete, count, after, split⟩ := first_lines_spec enough
  obtain ⟨beyond, failure', reason, rfl, stops⟩ := fails_after_shape fails
  have whole : source = Source.ofBytes (Source.firstLines k bytes ++ after) failure := by rw [← split]
  rcases read_all_cut_bytes complete with ⟨outcome, ends⟩ | ⟨outcome, reader, stopped, goesOn⟩
  · rw [count] at ends
    have here := ends after failure
    rw [← whole] at here
    refine ⟨fun _ => ?_, fun goesOn => absurd here.fails goesOn, fun rest failure => ?_⟩
    · rw [Source.read, Source.read, here.reads, (ends beyond failure').reads]
    · rw [events_within_eq, events_within_eq, here.completed, (ends rest failure).completed]
  · rw [count] at stopped goesOn
    have here := goesOn after failure
    rw [← whole] at here
    have alone := stopped beyond failure' reason stops
    refine ⟨fun fails => absurd fails here.goesOn, fun _ => ⟨?_, ?_⟩, fun rest failure => ?_⟩
    · obtain ⟨e, failed, cause, line⟩ := interruption_error options (congrArg (·.error) alone)
      refine ⟨e, reason, ?_, cause, line⟩
      rw [Outcome.items, failed, read_events, alone, events_within_eq, here.completed]
      simp only [Outcome.followedBy, List.append_nil]
      rfl
    · obtain ⟨later, reads⟩ := here.reads
      rw [read_warnings, read_warnings, alone, reads]
      simp only [Outcome.followedBy, List.append_nil]
      exact List.prefix_append ..
    · rw [events_within_eq, events_within_eq, here.completed, (goesOn rest failure).completed]

/-- The third line is asked for to finish a docstring. If it is no text, the definition on the first
line is still read, and the one with the docstring is not. -/
theorem read_interrupted_in_docstring :
    let bytes := "a := b.\nc := \"\"\"d\n\"\"\" e.\n".toUTF8.toList
    let source := Source.ofBytes bytes none
    let cut := Source.ofBytes (Source.firstLines 2 bytes ++ [255, 10]) none
    2 ≤ bytes.count 10 ∧ Source.FailsAfter (Source.firstLines 2 bytes) cut ∧ ¬ source.FailsWithin 2 ∧
      (source.eventsWithin .plain 2).length = 1 ∧
      ∃ e reason, (cut.read .plain).items = (source.eventsWithin .plain 2).map .ok ++ [.error e] ∧
        e.cause = .unreadable reason ∧ e.line = some 3 := by
  intro bytes source cut
  have enough : 2 ≤ bytes.count 10 := by decide +kernel
  have fails : Source.FailsAfter (Source.firstLines 2 bytes) cut :=
    @Source.FailsAfter.notText _ [255, 10] [255, 10] [] none rfl (.inl rfl) (by decide +kernel)
  have goesOn : ¬ source.FailsWithin 2 := by
    rw [Source.FailsWithin]
    decide +kernel
  exact ⟨enough, fails, goesOn, by decide +kernel,
    ((read_interrupted .plain none enough fails).2.1 goesOn).1⟩

end TypeDescription
