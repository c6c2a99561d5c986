import TypeDescription.Token.Scan

/-!
The tokens of a source, handed out one at a time. A line is read only when no token of the lines
before it is left. The end of the source, or the first fault, ends the tokens; whoever asks again
gets nothing.
-/

namespace TypeDescription

/-! ## Requests -/

section Requests

variable {σ α : Type} {next : σ → Option α × σ}

/-- The answers to a number of requests, each made of what the one before left, and what they leave. -/
def requestsTo (next : σ → Option α × σ) : Nat → σ → List (Option α) × σ
  | 0, s => ([], s)
  | n + 1, s =>
    let (answer, later) := next s
    let (answers, last) := requestsTo next n later
    (answer :: answers, last)

theorem requests_to_succ (n : Nat) (s : σ) : requestsTo next (n + 1) s =
    ((next s).1 :: (requestsTo next n (next s).2).1, (requestsTo next n (next s).2).2) := rfl

/-- If every request takes the first of what is left, the answers are what is left, in order. -/
theorem requests_to_answers {items : σ → List α}
    (advances : ∀ s, (next s).1 = (items s).head? ∧ items (next s).2 = (items s).tail) (n : Nat) (s : σ) :
    (requestsTo next n s).1 = (List.range n).map fun request => (items s)[request]? := by
  induction n generalizing s with
  | zero => rfl
  | succ n ih =>
    obtain ⟨answer, left⟩ := advances s
    rw [requests_to_succ, ih, List.range_succ_eq_map, List.map_cons, List.map_map, answer, left,
      List.head?_eq_getElem?]
    refine congrArg _ (List.map_congr_left fun request _ => ?_)
    exact List.getElem?_tail

/-- Where a request gets nothing and changes nothing, no request gets anything. -/
theorem requests_to_of_ended {s : σ} (ended : next s = (none, s)) (n : Nat) :
    requestsTo next n s = (List.replicate n none, s) := by
  induction n with
  | zero => rfl
  | succ n ih => rw [requests_to_succ, ended, ih, List.replicate_succ]

/-- Answers of this kind are the last ones: what they leave is over, and when it is over a request gets
nothing and changes nothing. -/
structure LastAnswers (next : σ → Option α × σ) (last : Option α → Prop) (Over : σ → Prop) : Prop where
  reached : ∀ s, last (next s).1 → Over (next s).2
  stays : ∀ s, Over s → next s = (none, s)

/-- After the last answer requests get nothing, however many there are. -/
theorem LastAnswers.after {last : Option α → Prop} {Over : σ → Prop} (answers : LastAnswers next last Over)
    {n : Nat} {s : σ} {before after : List (Option α)} {answer : Option α}
    (asked : (requestsTo next n s).1 = before ++ answer :: after) (isLast : last answer) :
    (∀ later ∈ after, later = none) ∧ Over (requestsTo next n s).2 := by
  induction n generalizing s before with
  | zero => cases before <;> cases asked
  | succ n ih =>
    rw [requests_to_succ] at asked ⊢
    cases before with
    | nil =>
      obtain ⟨rfl, rfl⟩ := List.cons.inj asked
      have ended := answers.reached s isLast
      rw [requests_to_of_ended (answers.stays _ ended)]
      exact ⟨fun later member => List.eq_of_mem_replicate member, ended⟩
    | cons first before => exact ih (List.cons.inj asked).2

end Requests

/-! ## Tokens -/

/-- Where the scan of a source stands between two tokens. -/
inductive TokenStream where
  /-- Of the `read` lines read so far the tokens `waiting` have not been handed out; `ending` is how
  the last of these lines ends, and `lines` are those to come. -/
  | reading (failure : Option String) (read : Nat) (waiting : List Token)
      (ending : Except Error (Option Unclosed)) (lines : List (List Char))
  /-- The end of the source or a fault has been met. -/
  | ended

namespace TokenStream

/-- All tokens of a source. -/
def ofSource (source : Source) : TokenStream :=
  reading source.failure 0 [] (.ok none) source.lines

/-- Reads lines until one has a token, a fault is met or none is left. -/
def readLines (failure : Option String) :
    Nat → Except Error (Option Unclosed) → List (List Char) → Option (Except Error Token) × TokenStream
  | _, .error fault, _ => (some (.error fault), ended)
  | read, .ok unclosed, [] => ((endFault failure read unclosed).map .error, ended)
  | read, .ok unclosed, line :: lines =>
    let scan := scanLine (read + 1) line unclosed
    match scan.tokens with
    | t :: waiting => (some (.ok t), reading failure (read + 1) waiting scan.ending lines)
    | [] => readLines failure (read + 1) scan.ending lines

/-- The next token, or the fault after the last one; nothing after that, or at the end. -/
def next : TokenStream → Option (Except Error Token) × TokenStream
  | ended => (none, ended)
  | reading failure read (t :: waiting) ending lines =>
    (some (.ok t), reading failure read waiting ending lines)
  | reading failure read [] ending lines => readLines failure read ending lines

/-- The answers to a number of requests for tokens, and the stream after them. -/
def requests (n : Nat) (s : TokenStream) : List (Option (Except Error Token)) × TokenStream :=
  requestsTo next n s

/-- The tokens that are left, and the fault that follows them, if there is one. -/
def left : TokenStream → List Token × Option Error
  | ended => ([], none)
  | reading _ _ waiting (.error fault) _ => (waiting, some fault)
  | reading failure read waiting (.ok unclosed) lines =>
    let scan := scanLines failure read unclosed lines
    (waiting ++ scan.tokens, scan.error)

theorem left_of_source (source : Source) :
    (ofSource source).left = (source.scan.tokens, source.scan.error) := rfl

/-- The answer to a request for a token, and what it leaves. -/
inductive Answers (s : TokenStream) : Option (Except Error Token) × TokenStream → Prop where
  | token {t : Token} {rest : TokenStream} (left : s.left = (t :: rest.left.1, rest.left.2)) :
    Answers s (some (.ok t), rest)
  | fault {fault : Error} (left : s.left = ([], some fault)) : Answers s (some (.error fault), ended)
  | nothing (left : s.left = ([], none)) : Answers s (none, ended)

theorem Answers.of_left {s s' : TokenStream} (same : s.left = s'.left)
    {answer : Option (Except Error Token) × TokenStream} (answers : s'.Answers answer) : s.Answers answer := by
  cases answers with
  | token left => exact .token (same.trans left)
  | fault left => exact .fault (same.trans left)
  | nothing left => exact .nothing (same.trans left)

/-- The first token that waits is the next one. -/
theorem left_of_waiting (failure : Option String) (read : Nat) (t : Token) (waiting : List Token)
    (ending : Except Error (Option Unclosed)) (lines : List (List Char)) :
    (reading failure read (t :: waiting) ending lines).left =
      (t :: (reading failure read waiting ending lines).left.1,
        (reading failure read waiting ending lines).left.2) := by
  cases ending <;> rfl

/-- To scan a line leaves the same tokens. -/
theorem left_of_line (failure : Option String) (read : Nat) (unclosed : Option Unclosed) (line : List Char)
    (lines : List (List Char)) :
    (reading failure read [] (.ok unclosed) (line :: lines)).left =
      (reading failure (read + 1) (scanLine (read + 1) line unclosed).tokens
        (scanLine (read + 1) line unclosed).ending lines).left := by
  rw [left, scanLines]
  cases ending : (scanLine (read + 1) line unclosed).ending <;> simp [left, Scan.after]

private theorem read_lines_answers (failure : Option String) (read : Nat)
    (ending : Except Error (Option Unclosed)) (lines : List (List Char)) :
    (reading failure read [] ending lines).Answers (readLines failure read ending lines) := by
  fun_induction readLines failure read ending lines with
  | case1 => exact .fault rfl
  | case2 read unclosed =>
    cases ends : endFault failure read unclosed with
    | some fault => exact .fault (by rw [left, scanLines, ends]; rfl)
    | none => exact .nothing (by rw [left, scanLines, ends]; rfl)
  | case3 read unclosed line lines scan t waiting tokens =>
    refine .token ((left_of_line ..).trans ?_)
    rw [show (scanLine (read + 1) line unclosed).tokens = t :: waiting from tokens, left_of_waiting]
  | case4 read unclosed line lines scan tokens ih =>
    refine ih.of_left ((left_of_line ..).trans ?_)
    rw [show (scanLine (read + 1) line unclosed).tokens = [] from tokens]

/-- The tokens are handed out in order. -/
theorem next_answers (s : TokenStream) : s.Answers s.next := by
  match s with
  | ended => exact .nothing rfl
  | reading failure read (t :: waiting) ending lines => exact .token (left_of_waiting ..)
  | reading failure read [] ending lines => exact read_lines_answers failure read ending lines

/-- What is left to be requested: the tokens, and then the fault. -/
def items (s : TokenStream) : List (Except Error Token) := s.left.1.map .ok ++ s.left.2.toList.map .error

theorem next_advances (s : TokenStream) :
    s.next.1 = s.items.head? ∧ s.next.2.items = s.items.tail := by
  have answers := s.next_answers
  generalize s.next = answer at answers
  cases answers with
  | token left | fault left | nothing left =>
    rw [items, left]
    exact ⟨rfl, rfl⟩

/-- With the fault, or without one at the end of the source, the stream is over. -/
theorem last_answers : LastAnswers next (fun answer => ∀ t, answer ≠ some (.ok t)) (· = ended) where
  reached s noToken := by
    have answers := s.next_answers
    generalize s.next = answer at answers noToken
    cases answers with
    | token => exact absurd rfl (noToken _)
    | fault | nothing => rfl
  stays s isOver := by
    rw [isOver]
    rfl

end TokenStream

end TypeDescription
