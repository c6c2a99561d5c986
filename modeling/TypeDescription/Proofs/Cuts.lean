import TypeDescription.Proofs.Displacement

/-!
A source cut in two. Scanning hands from one line to the next only what is unclosed, and reading
hands from one token to the next only the state of the reader; so the second part of a source
matters to the first in no way, and the first to the second only through what it hands over. After
a fault in the first part the second is not looked at.
-/

namespace TypeDescription

/-! ## Lines -/

/-- How many lines are asked for until the scan ends. To find that there are no more lines is to
ask for one. -/
def linesAsked : Nat → Option Unclosed → List (List Char) → Nat
  | read, _, [] => read + 1
  | read, unclosed, line :: lines =>
    match (scanLine (read + 1) line unclosed).ending with
    | .ok left => linesAsked (read + 1) left lines
    | .error _ => read + 1

/-- Either there is a fault on the first lines, or they leave the scan to the lines after them. -/
theorem scan_lines_cut (read : Nat) (unclosed : Option Unclosed) (first : List (List Char)) :
    (∃ tokens fault stop, stop ≤ read + first.length ∧ ∀ failure second,
      scanLines failure read unclosed (first ++ second) =
          { tokens, error := some fault, linesRead := stop } ∧
        linesAsked read unclosed (first ++ second) = stop) ∨
    ∃ tokens left, ∀ failure second,
      scanLines failure read unclosed (first ++ second) =
          (scanLines failure (read + first.length) left second).after tokens ∧
        linesAsked read unclosed (first ++ second) = linesAsked (read + first.length) left second := by
  induction first generalizing read unclosed with
  | nil => exact .inr ⟨[], unclosed, fun failure second => ⟨rfl, rfl⟩⟩
  | cons line first ih =>
    have next : read + (line :: first).length = read + 1 + first.length := by
      rw [List.length_cons]
      omega
    simp only [List.cons_append, scanLines, linesAsked, next]
    cases ending : (scanLine (read + 1) line unclosed).ending with
    | error fault => exact .inl ⟨_, fault, read + 1, Nat.le_add_right .., fun _ _ => ⟨rfl, rfl⟩⟩
    | ok left =>
      let tokens := (scanLine (read + 1) line unclosed).tokens
      rcases ih (read + 1) left with ⟨later, fault, stop, bound, scanned⟩ | ⟨later, left', scanned⟩
      · refine .inl ⟨tokens ++ later, fault, stop, bound, fun failure second => ?_⟩
        obtain ⟨scan, asked⟩ := scanned failure second
        exact ⟨by simp only [scan]; rfl, asked⟩
      · refine .inr ⟨tokens ++ later, left', fun failure second => ?_⟩
        obtain ⟨scan, asked⟩ := scanned failure second
        exact ⟨by simp only [scan, Scan.after, tokens, List.append_assoc], asked⟩

theorem lines_asked_bounds (read : Nat) (unclosed : Option Unclosed) (lines : List (List Char)) :
    read < linesAsked read unclosed lines ∧ linesAsked read unclosed lines ≤ read + lines.length + 1 := by
  induction lines generalizing read unclosed with
  | nil => exact ⟨Nat.lt_succ_self read, Nat.le_refl _⟩
  | cons line lines ih =>
    rw [linesAsked, List.length_cons]
    split
    · next left _ =>
      have later := ih (read + 1) left
      omega
    · omega

theorem walk_token_lines (number : Nat) (line rest : List Char) (covered : Nat) :
    (∀ t ∈ (walk number line rest covered).tokens, t.line = number ∧ t.lastLine = number) ∧
      ∀ u, (walk number line rest covered).ending = .ok (some u) → u.line = number := by
  fun_induction walk number line rest covered with
  | case1 => exact ⟨fun _ member => absurd member List.not_mem_nil, fun _ ending => by cases ending⟩
  | case2 c rest covered ih | case3 c rest white ih => exact ih
  | case4 c rest white enclosure body opened unclosed text after closed ih =>
    exact ⟨List.forall_mem_cons.mpr ⟨⟨rfl, rfl⟩, ih.1⟩, ih.2⟩
  | case5 c rest white enclosure body opened unclosed still =>
    refine ⟨fun _ member => absurd member List.not_mem_nil, fun u ending => ?_⟩
    cases ending
    rfl
  | case6 c rest white opened kind text after found ih =>
    exact ⟨List.forall_mem_cons.mpr ⟨⟨rfl, rfl⟩, ih.1⟩, ih.2⟩
  | case7 => exact ⟨fun _ member => absurd member List.not_mem_nil, fun _ ending => by cases ending⟩

theorem scan_line_token_lines (number : Nat) (line : List Char) (unclosed : Option Unclosed) :
    (∀ t ∈ (scanLine number line unclosed).tokens,
      t.lastLine = number ∧ ((∀ u ∈ unclosed, u.line ≤ number) → t.line ≤ number)) ∧
      ∀ u, (scanLine number line unclosed).ending = .ok (some u) →
        (∀ u ∈ unclosed, u.line ≤ number) → u.line ≤ number := by
  have walked (covered : Nat) :
      (∀ t ∈ (walk number line line covered).tokens,
        t.lastLine = number ∧ ((∀ u ∈ unclosed, u.line ≤ number) → t.line ≤ number)) ∧
        ∀ u, (walk number line line covered).ending = .ok (some u) →
          (∀ u ∈ unclosed, u.line ≤ number) → u.line ≤ number := by
    obtain ⟨tokens, left⟩ := walk_token_lines number line line covered
    exact ⟨fun t member => ⟨(tokens t member).2, fun _ => Nat.le_of_eq (tokens t member).1⟩,
      fun u ending _ => Nat.le_of_eq (left u ending)⟩
  cases unclosed with
  | none => exact walked 0
  | some unclosed =>
    rw [scanLine]
    split
    · next text after closed =>
      exact ⟨List.forall_mem_cons.mpr ⟨⟨rfl, fun opened => opened unclosed rfl⟩, (walked _).1⟩, (walked _).2⟩
    · refine ⟨fun _ member => absurd member List.not_mem_nil, fun u ending opened => ?_⟩
      cases ending
      exact opened unclosed rfl

/-- A token ends on the line whose scan completes it, and does not start later. -/
theorem scan_lines_token_lines (failure : Option String) (read : Nat) (unclosed : Option Unclosed)
    (lines : List (List Char)) :
    ∀ t ∈ (scanLines failure read unclosed lines).tokens,
      read < t.lastLine ∧ t.lastLine ≤ read + lines.length ∧
        ((∀ u ∈ unclosed, u.line ≤ read) → t.line ≤ t.lastLine) := by
  induction lines generalizing read unclosed with
  | nil => exact fun _ member => nomatch member
  | cons line lines ih =>
    obtain ⟨here, left⟩ := scan_line_token_lines (read + 1) line unclosed
    have before (opened : ∀ u ∈ unclosed, u.line ≤ read) : ∀ u ∈ unclosed, u.line ≤ read + 1 :=
      fun u held => Nat.le_succ_of_le (opened u held)
    have now : ∀ t ∈ (scanLine (read + 1) line unclosed).tokens,
        read < t.lastLine ∧ t.lastLine ≤ read + (line :: lines).length ∧
          ((∀ u ∈ unclosed, u.line ≤ read) → t.line ≤ t.lastLine) := by
      intro t member
      obtain ⟨ended, started⟩ := here t member
      rw [ended, List.length_cons]
      exact ⟨by omega, by omega, fun opened => started (before opened)⟩
    rw [scanLines]
    cases ending : (scanLine (read + 1) line unclosed).ending with
    | error fault => exact now
    | ok unclosed' =>
      intro t member
      rcases List.mem_append.mp member with first | later
      · exact now t first
      · obtain ⟨after, upTo, started⟩ := ih (read + 1) unclosed' t later
        rw [List.length_cons]
        refine ⟨by omega, by omega, fun opened => started fun u held => ?_⟩
        exact left u (by rw [ending, Option.mem_def.mp held]) (before opened)

/-! ## Tokens -/

namespace Reader

variable {fault : Option Error} {reader reader' : Reader} {first : List Token}

/-- The reader after some tokens, or the first token that it refuses. -/
def advance : Reader → List Token → Except Token Reader
  | reader, [] => .ok reader
  | reader, t :: rest =>
    match reader.read t with
    | .ok step => advance step.reader rest
    | .error _ => .error t

/-- The events, each with the token that completes it. -/
def deliveries : Reader → List Token → List (Token × Event)
  | _, [] => []
  | reader, t :: rest =>
    match reader.read t with
    | .ok step => step.event.toList.map (t, ·) ++ deliveries step.reader rest
    | .error _ => []

theorem run_events (fault : Option Error) (reader : Reader) (tokens : List Token) :
    (run fault reader tokens).events = (reader.deliveries tokens).map (·.2) := by
  induction tokens generalizing reader with
  | nil => rfl
  | cons t rest ih =>
    rw [run, deliveries]
    cases reader.read t with
    | error e => rfl
    | ok step => simp [Outcome.after, ih, Function.comp_def]

theorem delivered_by (reader : Reader) (tokens : List Token) :
    ∀ delivery ∈ reader.deliveries tokens, delivery.1 ∈ tokens := by
  induction tokens generalizing reader with
  | nil => exact fun _ member => nomatch member
  | cons t rest ih =>
    rw [deliveries]
    cases reader.read t with
    | error e => exact fun _ member => nomatch member
    | ok step =>
      intro delivery member
      rcases List.mem_append.mp member with now | later
      · obtain ⟨event, -, rfl⟩ := List.mem_map.mp now
        exact List.mem_cons_self ..
      · exact List.mem_cons_of_mem _ (ih step.reader delivery later)

theorem refused_mem {t : Token} (refused : reader.advance first = .error t) : t ∈ first := by
  induction first generalizing reader with
  | nil => cases refused
  | cons u rest ih =>
    rw [advance] at refused
    cases taken : reader.read u with
    | error e =>
      rw [taken] at refused
      cases refused
      exact List.mem_cons_self ..
    | ok step =>
      rw [taken] at refused
      exact List.mem_cons_of_mem _ (ih refused)

/-- After a token that is refused nothing is looked at. -/
theorem cut_of_refused {t : Token} (refused : reader.advance first = .error t)
    (fault : Option Error) (second : List Token) :
    run fault reader (first ++ second) = run none reader first ∧
      reader.advance (first ++ second) = .error t ∧
      reader.deliveries (first ++ second) = reader.deliveries first := by
  induction first generalizing reader with
  | nil => cases refused
  | cons u rest ih =>
    rw [advance] at refused
    rw [List.cons_append, run, run, advance, deliveries, deliveries]
    cases taken : reader.read u with
    | error e =>
      rw [taken] at refused
      exact ⟨rfl, refused, rfl⟩
    | ok step =>
      rw [taken] at refused
      obtain ⟨same, refused', delivered⟩ := ih refused
      exact ⟨by simp only [same], refused', by simp only [delivered]⟩

/-- Tokens that are all taken leave the reader to the tokens after them. -/
theorem cut_of_taken (taken : reader.advance first = .ok reader') (fault : Option Error)
    (second : List Token) :
    run fault reader (first ++ second) = (run none reader first).followedBy (run fault reader' second) ∧
      reader.advance (first ++ second) = reader'.advance second ∧
      reader.deliveries (first ++ second) = reader.deliveries first ++ reader'.deliveries second := by
  induction first generalizing reader with
  | nil =>
    cases taken
    exact ⟨rfl, rfl, rfl⟩
  | cons t rest ih =>
    rw [advance] at taken
    rw [List.cons_append, run, run, advance, deliveries, deliveries]
    cases read : reader.read t with
    | error e =>
      rw [read] at taken
      cases taken
    | ok step =>
      rw [read] at taken
      obtain ⟨same, later, delivered⟩ := ih taken
      refine ⟨?_, later, ?_⟩
      · simp only [same, Outcome.after, Outcome.followedBy, List.append_assoc]
      · simp only [delivered, List.append_assoc]

/-- Tokens that are refused are refused with an error. -/
theorem error_of_refused {t : Token} (refused : reader.advance first = .error t) :
    (run fault reader first).error ≠ none := by
  induction first generalizing reader with
  | nil => cases refused
  | cons u rest ih =>
    rw [advance] at refused
    rw [run]
    cases taken : reader.read u with
    | error e => exact Option.some_ne_none e
    | ok step =>
      rw [taken] at refused
      exact ih refused

theorem error_of_taken (taken : reader.advance first = .ok reader') :
    (run fault reader first).error = reader'.endFault fault := by
  have whole := (cut_of_taken taken fault []).1
  rw [List.append_nil] at whole
  rw [whole]
  rfl

end Reader

end TypeDescription
