import TypeDescription.Proofs.Backslashes
import TypeDescription.Proofs.ByteSearch

/-!
An enclosed text is searched for line by line and byte by byte, and it is the text that a walk over all of
the lines at once would find. A line that is not closed ends with a line feed, which no delimiter holds and
which is the last character that a backslash on the line can cover. So nothing that matters to the search
reaches over the end of a line, and the scan goes on right behind the delimiter.
-/

namespace TypeDescription

/-! ## Covered characters -/

/-- Which characters are covered, from the left: a backslash that is not covered itself covers itself and the
character after it. -/
def coverage : List Char → List Bool
  | [] => []
  | ['\\'] => [true]
  | '\\' :: _ :: rest => true :: true :: coverage rest
  | _ :: rest => false :: coverage rest

/-- The character with this index is covered. -/
def Escaped (s : List Char) (i : Nat) : Prop := (coverage s)[i]? = some true

instance (s : List Char) (i : Nat) : Decidable (Escaped s i) :=
  inferInstanceAs (Decidable ((coverage s)[i]? = some true))

/-- The text ends where the first closing delimiter starts that is not covered. -/
structure EndsAtUncovered (closer s text : List Char) : Prop where
  closed : text ++ closer <+: s
  uncovered : ¬ Escaped s text.length
  first : ∀ i < text.length, closer <+: s.drop i → Escaped s i

theorem coverage_cons {c : Char} (plain : c ≠ '\\') (rest : List Char) :
    coverage (c :: rest) = false :: coverage rest := by
  apply coverage.eq_4
  · exact fun same _ => plain same
  · exact fun _ _ same _ => plain same

/-- What is no backslash is covered if the number of backslashes before it is odd. -/
theorem escaped_iff_covered {s : List Char} {i : Nat} {c : Char} (here : s[i]? = some c) (plain : c ≠ '\\') :
    Escaped s i ↔ CoveredAt s i := by
  fun_induction coverage s generalizing i with
  | case1 => cases here
  | case2 =>
    cases i with
    | zero => exact absurd (Option.some.inj here).symm plain
    | succ i => cases here
  | case3 second rest ih =>
    rcases i with _ | _ | i
    · exact absurd (Option.some.inj here).symm plain
    · exact iff_of_true rfl (covered_one second rest)
    · exact (ih here).trans (covered_escape second rest i).symm
  | case4 first rest noEnd noCover ih =>
    have plain' := ne_escape noEnd noCover
    rw [Escaped, coverage_cons plain']
    cases i with
    | zero => exact iff_of_false (fun covered => by cases covered) (not_covered_zero _)
    | succ i => exact (ih here).trans (covered_cons plain' rest i).symm

section Delimiter

variable {closer s text : List Char} (delimiter : IsDelimiter closer)

include delimiter

/-- Where a delimiter starts, only a backslash before it can cover it. -/
theorem IsDelimiter.escaped_iff {i : Nat} (starts : closer <+: s.drop i) : Escaped s i ↔ CoveredAt s i := by
  obtain ⟨d, ds, rfl, -⟩ := delimiter.starts
  obtain ⟨after, shape⟩ := starts
  refine escaped_iff_covered (c := d) ?_ fun same => delimiter.plain (same ▸ List.mem_cons_self ..)
  rw [← List.head?_drop, ← shape]
  rfl

/-- The search of the characters stops where a walk from the left finds the first uncovered delimiter. -/
theorem ends_at_uncovered_iff :
    EndsAtUncovered closer s text ↔ ∃ after, upToCloser closer s = some (text, after) := by
  have found_iff (after : List Char) : upToCloser closer s = some (text, after) ↔ ClosesFirst closer s text after :=
    up_to_closer_eq_some_iff delimiter.plain delimiter.ne_nil
  simp only [found_iff]
  constructor
  · rintro ⟨⟨after, shape⟩, uncovered, first⟩
    have starts := starts_of_shape shape.symm
    exact ⟨after, shape.symm, mt (delimiter.escaped_iff starts).mpr uncovered, fun i before starts =>
      (delimiter.escaped_iff starts).mp (first i before starts)⟩
  · rintro ⟨after, shape, uncovered, first⟩
    have starts := starts_of_shape shape
    exact ⟨⟨after, shape.symm⟩, mt (delimiter.escaped_iff starts).mp uncovered, fun i before starts =>
      (delimiter.escaped_iff starts).mpr (first i before starts)⟩

end Delimiter

/-! ## Places behind a delimiter -/

/-- A text that has been found in lines, and the place behind its closing delimiter. -/
structure ClosedText where
  text : List Char
  number : Nat
  /-- What stands before the place on its line, the delimiter included. -/
  front : List Char
  after : List Char
  later : List (List Char)

namespace ClosedText

/-- The same place in the bytes of the lines, which is between two characters. -/
def encoded (place : ClosedText) : BytePlace :=
  { text := encode place.text, number := place.number, line := encode (place.front ++ place.after)
    index := (encode place.front).length, later := place.later.map encode }

/-- Text in front of that which has been found. -/
def behind (before : List Char) (place : ClosedText) : ClosedText := { place with text := before ++ place.text }

/-- Some of these lines are passed, and the place is on the next one, right behind the closing delimiter of the
text. The first line, which has this number, is `opened` up to where the text starts. -/
structure EndsOn (place : ClosedText) (closer opened : List Char) (number : Nat) (lines passed : List (List Char)) :
    Prop where
  shape : lines = passed ++ (place.front ++ place.after) :: place.later
  span : opened ++ place.text ++ closer = passed.flatten ++ place.front
  closed : closer <:+ place.front
  number : place.number = number + passed.length

theorem behind_behind (first second : List Char) (place : ClosedText) :
    (place.behind second).behind first = place.behind (first ++ second) := by
  simp only [behind, List.append_assoc]

end ClosedText

/-- Searches the rest of a line, which follows `front` on it, and then the lines after it. -/
def closedText? (closer : List Char) (number : Nat) (front body : List Char) (lines : List (List Char)) :
    Option ClosedText :=
  match upToCloser closer body, lines with
  | some (text, after), _ => some { text, number, front := front ++ text ++ closer, after, later := lines }
  | none, [] => none
  | none, next :: later => (closedText? closer (number + 1) [] next later).map (·.behind body)
termination_by structural lines

section Lines

variable {closer : List Char} (delimiter : IsDelimiter closer)

include delimiter

/-- What is found ends on the line that holds its closing delimiter. -/
theorem ends_on_of_closed_text {number : Nat} {front body : List Char} {lines : List (List Char)}
    {place : ClosedText} (found : closedText? closer number front body lines = some place) :
    ∃ passed, place.EndsOn closer front number ((front ++ body) :: lines) passed := by
  fun_induction closedText? closer number front body lines generalizing place with
  | case1 lines number front body text after closed =>
    cases found
    obtain ⟨shape, -⟩ := up_to_closer_eq_some delimiter.plain delimiter.ne_nil closed
    exact ⟨[], by simp [shape], rfl, List.suffix_append .., rfl⟩
  | case2 => cases found
  | case3 number front body next later absent ih =>
    obtain ⟨place, found', rfl⟩ := Option.map_eq_some_iff.mp found
    obtain ⟨passed, shape, span, closes, count⟩ := ih found'
    rw [List.nil_append] at shape span
    refine ⟨(front ++ body) :: passed, by rw [shape]; rfl, ?_, closes, ?_⟩
    · simp only [ClosedText.behind, List.flatten_cons, List.append_assoc]
      rw [← span]
    · rw [List.length_cons, ← Nat.add_assoc, Nat.add_right_comm, ← count]
      rfl

/-- The bytes are searched with the result of a search of the characters. -/
theorem run_lines (gathered : List Char) (number : Nat) (front body : List Char) (lines : List (List Char)) :
    ByteSearch.run (encode closer)
        { text := encode gathered, number, line := encode (front ++ body), start := (encode front).length
          index := (encode front).length, later := lines.map encode } =
      (closedText? closer number front body lines).map fun place => (place.behind gathered).encoded := by
  fun_induction closedText? closer number front body lines generalizing gathered with
  | case1 lines number front body text after closed =>
    obtain ⟨shape, -⟩ := up_to_closer_eq_some delimiter.plain delimiter.ne_nil closed
    have inner : ((encode (front ++ body)).take ((encode front).length + (encode text).length)).drop
        (encode front).length = encode text := by
      rw [List.drop_take, Nat.add_sub_cancel_left, drop_encode, shape, List.append_assoc, encode_append text,
        List.take_left]
    rw [ByteSearch.run_line delimiter (drop_encode front body), closed]
    simp only [ByteSearch.answer, inner, Option.map_some, ClosedText.encoded, ClosedText.behind]
    simp [encode_append, shape]
  | case2 number front body absent =>
    rw [ByteSearch.run_line delimiter (drop_encode front body), absent]
    rfl
  | case3 number front body next later absent ih =>
    rw [ByteSearch.run_line delimiter (drop_encode front body), absent]
    simp only [ByteSearch.answer, ByteSearch.onLater, ByteSearch.turn, List.map_cons, drop_encode, Option.map_map,
      Function.comp_def, ClosedText.behind_behind]
    have searched := ih (gathered ++ body)
    rw [encode_append] at searched
    exact searched

/-- Searching the lines one after the other is searching them at once, if they are complete. -/
theorem up_to_closer_of_lines (number : Nat) (front body : List Char) (lines : List (List Char))
    (noFeed : '\n' ∉ closer) (ends : ∀ piece ∈ (body :: lines).dropLast, piece.getLast? = some '\n') :
    upToCloser closer (body ++ lines.flatten) =
      (closedText? closer number front body lines).map fun place =>
        (place.text, place.after ++ place.later.flatten) := by
  fun_induction closedText? closer number front body lines with
  | case1 lines number front body text after closed =>
    obtain ⟨shape, encloses⟩ := up_to_closer_eq_some delimiter.plain delimiter.ne_nil closed
    rw [shape, List.append_assoc]
    exact encloses _
  | case2 number front body absent =>
    rw [List.flatten_nil, List.append_nil, absent]
    rfl
  | case3 number front body next later absent ih =>
    -- more lines follow, so this one is complete, and what is behind it is searched as if it stood alone
    rw [List.dropLast_cons_of_ne_nil (List.cons_ne_nil _ _)] at ends
    obtain ⟨first, others⟩ := List.forall_mem_cons.mp ends
    rw [stays_open_of_line noFeed first absent, List.flatten_cons, ih others, Option.map_map, Option.map_map]
    rfl

/-- What is found in the lines is the text that ends at the first uncovered delimiter. -/
theorem ends_at_uncovered_of_lines (number : Nat) (front body : List Char) (lines : List (List Char))
    (noFeed : '\n' ∉ closer) (ends : ∀ piece ∈ (body :: lines).dropLast, piece.getLast? = some '\n')
    (text : List Char) :
    EndsAtUncovered closer (body ++ lines.flatten) text ↔
      text ∈ (closedText? closer number front body lines).map ClosedText.text := by
  rw [ends_at_uncovered_iff delimiter, up_to_closer_of_lines delimiter number front body lines noFeed ends]
  cases closedText? closer number front body lines <;> simp

end Lines

/-! ## Scans behind a delimiter -/

/-- The lines after a line are scanned with what the line leaves unclosed, unless it has a fault. -/
def LineScan.goOn (scan : LineScan) (failure : Option String) (number : Nat) (lines : List (List Char)) : Scan :=
  match scan.ending with
  | .ok left => (scanLines failure number left lines).after scan.tokens
  | .error fault => { tokens := scan.tokens, error := some fault, linesRead := number }

/-- The scan from this place of a line on, and of the lines after it. -/
def scanFrom (failure : Option String) (number : Nat) (line rest : List Char) (lines : List (List Char)) : Scan :=
  (walk number line rest 0).goOn failure number lines

section Scan

variable (failure : Option String) (number : Nat) (lines : List (List Char))

theorem scan_lines_cons (unclosed : Option Unclosed) (line : List Char) :
    scanLines failure number unclosed (line :: lines) =
      (scanLine (number + 1) line unclosed).goOn failure (number + 1) lines := rfl

theorem go_on_after (scan : LineScan) (t : Token) :
    (scan.after t).goOn failure number lines = (scan.goOn failure number lines).after [t] := by
  rw [LineScan.goOn, LineScan.goOn, LineScan.after]
  cases scan.ending <;> rfl

theorem end_fault_unclosed (u : Unclosed) :
    endFault failure number (some u) = some (u.enclosure.endFault failure u.line number) := by
  cases failure <;> rfl

/-- What is unclosed becomes a token where its delimiter is found, and the scan goes on from there; or the
lines end with a fault. -/
theorem closing_go_on (u : Unclosed) (front body : List Char) :
    (closing number (front ++ body) u body).goOn failure number lines =
      match closedText? u.enclosure.closer number front body lines with
      | some place =>
        (scanFrom failure place.number (place.front ++ place.after) place.after place.later).after
          [u.token place.text place.number]
      | none =>
        { tokens := [], error := some (u.enclosure.endFault failure u.line (number + lines.length))
          linesRead := number + lines.length } := by
  -- what is gathered changes from line to line, and the delimiter does not
  generalize same : u.enclosure.closer = closer
  fun_induction closedText? closer number front body lines generalizing u with
  | case1 lines number front body text after closed =>
    rw [← same] at closed
    obtain ⟨shape, -⟩ := enclosed_eq_some closed
    have line : front ++ text ++ u.enclosure.closer ++ after = front ++ body := by simp [shape]
    rw [closing, closed, ← same]
    simp only [go_on_after, scanFrom, line]
  | case2 number front body absent =>
    rw [closing, same, absent]
    simp only [LineScan.goOn, scanLines, end_fault_unclosed]
    rfl
  | case3 number front body next later absent ih =>
    rw [closing, same, absent]
    simp only [LineScan.goOn]
    rw [scan_lines_cons, scan_line_unclosed]
    have closes := ih { u with text := u.text ++ body } same
    rw [List.nil_append] at closes
    rw [closes]
    cases closedText? closer (number + 1) [] next later with
    | some place =>
      simp [ClosedText.behind, Unclosed.token, Scan.after]
    | none =>
      have count : number + 1 + later.length = number + (next :: later).length := by
        rw [List.length_cons]
        omega
      rw [count]
      rfl

end Scan

/-! ## Enclosed texts -/

/-- What the bytes are searched for is what the characters are searched for. -/
theorem bounded_eq (enclosure : Enclosure) (failure : Option String) (number : Nat) (front body : List Char)
    (later : List (List Char)) :
    enclosure.bounded failure number (encode (front ++ body)) (encode front).length (later.map encode) =
      match closedText? enclosure.closer number front body later with
      | some place => .ok place.encoded
      | none => .error (enclosure.endFault failure number (number + later.length)) := by
  have searched : (Enclosure.search number (encode (front ++ body)) (encode front).length (later.map encode)).run
      (encode enclosure.closer) = _ := run_lines (is_delimiter enclosure) [] number front body later
  rw [Enclosure.bounded, searched, List.length_map]
  cases closedText? enclosure.closer number front body later <;> rfl

/-- The text of a docstring or a comment does not depend on how the text behind its opening delimiter is cut
into lines. The search on the bytes of the lines is over after at most one step for each byte and each line.
It finds the text that ends at the first closing delimiter that is not covered, and if there is none, it ends
with the fault that the text is not closed, blamed on the line of the opening delimiter, or with that of a
reader that fails. The place where the search ends is between two characters, right behind the closing
delimiter on the line that holds it; that is where the scan goes on. -/
theorem bounded_of_lines (enclosure : Enclosure) (failure : Option String) (number : Nat) (before body : List Char)
    (later : List (List Char)) (ends : ∀ piece ∈ (body :: later).dropLast, piece.getLast? = some '\n') :
    let front := before ++ enclosure.opener
    let rest := body ++ later.flatten
    let search := Enclosure.search number (encode (front ++ body)) (encode front).length (later.map encode)
    let found := enclosure.bounded failure number (encode (front ++ body)) (encode front).length (later.map encode)
    let fault := enclosure.endFault failure number (number + later.length)
    let scan := scanFrom failure number (front ++ body) (enclosure.opener ++ body) later
    search.moves (encode enclosure.closer) (search.size + 1) =
        (match found with
        | .ok place => .found place
        | .error _ => .exhausted) ∧
      (∀ text, (∃ place, found = .ok place ∧ place.text = encode text) ↔ EndsAtUncovered enclosure.closer rest text) ∧
      (found = .error fault ↔ ¬ ∃ text, EndsAtUncovered enclosure.closer rest text) ∧
      (∀ place, found = .ok place → ∃ closed passed, place = ClosedText.encoded closed ∧
        closed.EndsOn enclosure.closer front number ((front ++ body) :: later) passed ∧
        scan = (scanFrom failure closed.number (closed.front ++ closed.after) closed.after closed.later).after
          [{ kind := enclosure.kind, text := String.ofList closed.text, line := number
             lastLine := closed.number }]) ∧
      (found = .error fault → scan = { tokens := [], error := some fault, linesRead := number + later.length }) := by
  intro front rest search found fault scan
  have delimiter := is_delimiter enclosure
  have found_eq : found = _ := bounded_eq enclosure failure number front body later
  have scan_eq : scan = _ := (congrArg (·.goOn failure number later) (walk_opener ..)).trans
    (closing_go_on failure number later { enclosure, line := number, text := [] } front body)
  have ends_iff : ∀ text, EndsAtUncovered enclosure.closer rest text ↔ _ :=
    ends_at_uncovered_of_lines delimiter number front body later (plain_closer enclosure).2.1 ends
  refine ⟨enclosure.moves_of_search .., ?_⟩
  cases searched : closedText? enclosure.closer number front body later with
  | some closed =>
    rw [searched] at found_eq scan_eq ends_iff
    replace found_eq : found = .ok closed.encoded := found_eq
    replace ends_iff : ∀ text, EndsAtUncovered enclosure.closer rest text ↔ closed.text = text :=
      fun text => (ends_iff text).trans (by simp)
    obtain ⟨passed, endsOn⟩ := ends_on_of_closed_text delimiter searched
    rw [found_eq]
    refine ⟨fun text => ?_, ?_, ?_, ?_⟩
    · rw [ends_iff]
      constructor
      · rintro ⟨place, same, shape⟩
        cases same
        exact encode_injective shape
      · exact fun same => ⟨_, rfl, congrArg encode same⟩
    · exact iff_of_false (fun same => by cases same) fun never => never ⟨_, (ends_iff _).mpr rfl⟩
    · rintro place same
      cases same
      exact ⟨closed, passed, rfl, endsOn, scan_eq⟩
    · exact fun same => by cases same
  | none =>
    rw [searched] at found_eq scan_eq ends_iff
    replace found_eq : found = .error fault := found_eq
    have never : ∀ text, ¬ EndsAtUncovered enclosure.closer rest text :=
      fun text endsAt => Option.not_mem_none text ((ends_iff text).mp endsAt)
    rw [found_eq]
    refine ⟨fun text => ?_, iff_of_true rfl (not_exists.mpr never), ?_, fun _ => scan_eq⟩
    · exact iff_of_false (fun ⟨_, same, _⟩ => by cases same) (never text)
    · intro place same
      cases same

/-- A backslash covers a character of two bytes, one covers a line feed, one covers the start of a delimiter,
and the delimiter that closes the text starts a line. -/
theorem bounded_of_lines_behind_escapes :
    let front := "a \"\"\"".toList
    let body := "\\é\"\\\n".toList
    let later := ["\"\"\\\"\"\"\n".toList, "\"\"\" b".toList]
    (∀ piece ∈ (body :: later).dropLast, piece.getLast? = some '\n') ∧
      ∃ place, Enclosure.docstring.bounded none 1 (encode (front ++ body)) (encode front).length (later.map encode) =
          .ok place ∧
        place.text = encode "\\é\"\\\n\"\"\\\"\"\"\n".toList := by
  intro front body later
  have ends : ∀ piece ∈ (body :: later).dropLast, piece.getLast? = some '\n' := by decide
  have endsAt : EndsAtUncovered Enclosure.docstring.closer (body ++ later.flatten)
      "\\é\"\\\n\"\"\\\"\"\"\n".toList :=
    { closed := by decide, uncovered := by decide, first := by decide }
  obtain ⟨-, found_iff, -⟩ := bounded_of_lines .docstring none 1 "a ".toList body later ends
  exact ⟨ends, (found_iff _).mpr endsAt⟩

end TypeDescription
