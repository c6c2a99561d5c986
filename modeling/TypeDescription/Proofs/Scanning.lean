import TypeDescription.Proofs.Enclosures
import TypeDescription.Proofs.Lines

/-!
Scanning a text piece by piece. Which token a lexeme makes depends on the rest of its line, and an
enclosed text is taken line by line; but a text that is put together from white space, enclosed
texts and lexemes is scanned into these pieces, wherever its line feeds are.
-/

namespace TypeDescription

theorem opening_opener (enclosure : Enclosure) (s : List Char) :
    Enclosure.opening? (enclosure.opener ++ s) = some (enclosure, s) := by
  cases enclosure <;> simp [Enclosure.opening?, Enclosure.opener, List.isPrefixOf?]

theorem plain_closer (enclosure : Enclosure) :
    '\\' ∉ enclosure.closer ∧ '\n' ∉ enclosure.closer ∧ enclosure.closer ≠ [] := by
  cases enclosure <;> decide

/-- What is found up to the closing delimiter is enclosed by it wherever else it stands. -/
theorem enclosed_eq_some {enclosure : Enclosure} {body text after : List Char}
    (closed : upToCloser enclosure.closer body = some (text, after)) :
    body = text ++ enclosure.closer ++ after ∧ Encloses enclosure.closer text := by
  obtain ⟨plain, -, nonempty⟩ := plain_closer enclosure
  exact up_to_closer_eq_some plain nonempty closed

/-- The text is put together from white space and the pieces. -/
inductive Scans : List Char → Spelling → Prop where
  | done : Scans [] []
  | white {c : Char} {s : List Char} {pieces : Spelling} (space : Unicode.isWhiteSpace c = true)
    (plain : c ≠ '\r') (later : Scans s pieces) : Scans (c :: s) pieces
  | enclosed {enclosure : Enclosure} {text after : List Char} {pieces : Spelling}
    (encloses : Encloses enclosure.closer text) (unreturned : Unreturned text)
    (later : Scans after pieces) :
    Scans (enclosure.opener ++ (text ++ enclosure.closer ++ after))
      ((enclosure.kind, String.ofList text) :: pieces)
  | lexeme {kind : TokenKind} {c : Char} {written text after : List Char} {pieces : Spelling}
    (plain : '\n' ∉ c :: written) (last : (c :: written).getLast? ≠ some '\r')
    (dark : Unicode.isWhiteSpace c = false)
    (closed : Enclosure.opening? (c :: written ++ firstLine after) = none)
    (found : Lexeme.first? (c :: written ++ firstLine after) = some (kind, text, firstLine after))
    (later : Scans after pieces) :
    Scans (c :: written ++ after) ((kind, String.ofList text) :: pieces)

theorem Scans.unreturned {s : List Char} {pieces : Spelling} (scans : Scans s pieces) :
    Unreturned s := by
  induction scans with
  | done => exact List.isChain_nil
  | white space plain later ih =>
    rename_i c s pieces
    have first : Unreturned [c] := List.isChain_singleton c
    exact first.append ih (.inl (by simpa using plain))
  | @enclosed enclosure text after pieces encloses unreturned later ih =>
    have opener : Unreturned enclosure.opener ∧ enclosure.opener.getLast? ≠ some '\r' := by
      cases enclosure <;> exact ⟨unreturned_of_plain (by decide), by decide⟩
    have closer : Unreturned enclosure.closer ∧ enclosure.closer.getLast? ≠ some '\r' ∧
        enclosure.closer.head? ≠ some '\n' := by
      cases enclosure <;> exact ⟨unreturned_of_plain (by decide), by decide, by decide⟩
    have inner : Unreturned (enclosure.closer ++ after) := closer.1.append ih (.inl closer.2.1)
    rw [List.append_assoc]
    refine opener.1.append (unreturned.append inner (.inr ?_)) (.inl opener.2)
    rw [List.head?_append_of_ne_nil _ (plain_closer enclosure).2.2]
    exact closer.2.2
  | lexeme plain last dark closed found later ih =>
    exact (unreturned_of_plain plain).append ih (.inl last)

/-! ## Scans of lines -/

/-- A scan without a fault that found these pieces. -/
def Scan.ReadsAs (scan : Scan) (pieces : Spelling) : Prop :=
  scan.error = none ∧ scan.tokens.map Token.bare = pieces

/-- A line and the lines after it are scanned into these pieces. -/
def LineScan.ReadsAs (scan : LineScan) (number : Nat) (lines : List (List Char)) (pieces : Spelling) :
    Prop :=
  ∃ left later, scan.ending = .ok left ∧ pieces = scan.tokens.map Token.bare ++ later ∧
    (scanLines none number left lines).ReadsAs later

theorem LineScan.ReadsAs.after {scan : LineScan} {number : Nat} {lines : List (List Char)}
    {pieces : Spelling} (reads : scan.ReadsAs number lines pieces) (t : Token) :
    (scan.after t).ReadsAs number lines (t.bare :: pieces) := by
  obtain ⟨left, later, ending, rfl, rest⟩ := reads
  exact ⟨left, later, ending, rfl, rest⟩

/-- The lines are read as the first of them and those after it are. -/
theorem reads_as_cons {number : Nat} {unclosed : Option Unclosed} {line : List Char}
    {lines : List (List Char)} {pieces : Spelling}
    (reads : (scanLine (number + 1) line unclosed).ReadsAs (number + 1) lines pieces) :
    (scanLines none number unclosed (line :: lines)).ReadsAs pieces := by
  obtain ⟨left, later, ending, rfl, error, tokens⟩ := reads
  rw [scanLines]
  simp only [ending]
  exact ⟨error, by rw [Scan.after, List.map_append, tokens]⟩

theorem walk_drop (number : Nat) (line rest : List Char) (covered : Nat) :
    walk number line rest covered = walk number line (rest.drop covered) 0 := by
  induction rest generalizing covered with
  | nil => rw [List.drop_nil, walk, walk]
  | cons c rest ih =>
    cases covered with
    | zero => rfl
    | succ covered => rw [walk, List.drop_succ_cons, ih]

/-- What a token covers is skipped. -/
theorem walk_suffix {number : Nat} {line rest after : List Char} (tail : after <:+ rest) :
    walk number line rest (rest.length - after.length) = walk number line after 0 := by
  obtain ⟨before, rfl⟩ := tail
  rw [walk_drop, List.length_append, Nat.add_sub_cancel, List.drop_left]

/-- The rest of the text is read as these pieces, wherever it stands. -/
def Resumes (s : List Char) (pieces : Spelling) : Prop :=
  ∀ number line, (walk number line (firstLine s) 0).ReadsAs number (laterLines s) pieces

theorem Resumes.lines {s : List Char} {pieces : Spelling} (resumes : Resumes s pieces) (number : Nat) :
    (scanLines none number none (splitAfter (· == '\n') s)).ReadsAs pieces := by
  by_cases none : s = []
  · subst none
    obtain ⟨left, later, ending, rfl, rest⟩ := resumes number []
    obtain rfl := Except.ok.inj ending
    exact rest
  · rw [split_after_of_ne_nil none]
    exact reads_as_cons (resumes (number + 1) (firstLine s))

/-! ## Enclosed texts -/

/-- What is left of a line on which an enclosure is still unclosed. -/
def closing (number : Nat) (line : List Char) (unclosed : Unclosed) (body : List Char) :
    LineScan :=
  match upToCloser unclosed.enclosure.closer body with
  | some (text, after) => (walk number line after 0).after (unclosed.token text number)
  | none => { tokens := [], ending := .ok (some { unclosed with text := unclosed.text ++ body }) }

theorem scan_line_unclosed (number : Nat) (line : List Char) (unclosed : Unclosed) :
    scanLine number line (some unclosed) = closing number line unclosed line := by
  rw [scanLine, closing]
  cases found : upToCloser unclosed.enclosure.closer line with
  | none => rfl
  | some answer =>
    obtain ⟨text, after⟩ := answer
    obtain ⟨shape, -⟩ := enclosed_eq_some found
    have tail : after <:+ line := ⟨_, shape.symm⟩
    simp only [walk_suffix tail]

theorem walk_opener (number : Nat) (line : List Char) (enclosure : Enclosure)
    (body : List Char) :
    walk number line (enclosure.opener ++ body) 0 =
      closing number line { enclosure, line := number, text := [] } body := by
  obtain ⟨c, opener, start, dark⟩ : ∃ c opener, enclosure.opener = c :: opener ∧
      Unicode.isWhiteSpace c = false := by
    cases enclosure <;> exact ⟨_, _, rfl, by decide⟩
  have opened := opening_opener enclosure body
  rw [start, List.cons_append] at opened ⊢
  rw [walk, if_neg (by simp [dark]), opened, closing]
  simp only
  cases found : upToCloser enclosure.closer body with
  | none => rfl
  | some answer =>
    obtain ⟨text, after⟩ := answer
    obtain ⟨shape, -⟩ := enclosed_eq_some found
    have tail : after <:+ opener ++ body := ⟨opener ++ (text ++ enclosure.closer), by simp [shape]⟩
    simp only [walk_suffix tail]

/-- An enclosed text is read to its closing delimiter, however many lines away that is. -/
private theorem closing_reads (unclosed : Unclosed) {text after : List Char} {pieces : Spelling}
    (encloses : Encloses unclosed.enclosure.closer text) (resumes : Resumes after pieces)
    (number : Nat) (line : List Char) :
    (closing number line unclosed
      (firstLine (text ++ unclosed.enclosure.closer ++ after))).ReadsAs number
      (laterLines (text ++ unclosed.enclosure.closer ++ after))
      ((unclosed.enclosure.kind, String.ofList (unclosed.text ++ text)) :: pieces) := by
  obtain ⟨plain, noFeed, nonempty⟩ := plain_closer unclosed.enclosure
  induction length : text.length using Nat.strongRecOn generalizing text unclosed number line with
  | ind n ih =>
    by_cases feed : '\n' ∈ text
    · obtain ⟨first, rest, rfl, noFeed'⟩ := List.eq_append_cons_of_mem feed
      have shape : first ++ '\n' :: rest = (first ++ ['\n']) ++ rest := by simp
      have ends : (first ++ ['\n']).getLast? = some '\n' := by simp
      rw [shape] at encloses
      obtain ⟨absent, encloses'⟩ := encloses_of_line plain nonempty noFeed ends encloses
      have some : rest ++ unclosed.enclosure.closer ++ after ≠ [] := by simp [nonempty]
      obtain ⟨line', later⟩ :=
        line_append_feed noFeed' (rest ++ unclosed.enclosure.closer ++ after)
      have whole : first ++ '\n' :: rest ++ unclosed.enclosure.closer ++ after =
          first ++ '\n' :: (rest ++ unclosed.enclosure.closer ++ after) := by simp
      have shorter : rest.length < n := by
        rw [← length, List.length_append, List.length_cons]
        omega
      rw [whole, line', later, closing, absent, split_after_of_ne_nil some]
      refine ⟨_, _, rfl, rfl, reads_as_cons ?_⟩
      rw [scan_line_unclosed]
      have next := ih rest.length shorter
        { unclosed with text := unclosed.text ++ (first ++ ['\n']) } encloses' (number + 1)
        (firstLine (rest ++ unclosed.enclosure.closer ++ after)) plain noFeed nonempty rfl
      have text' : unclosed.text ++ (first ++ ['\n'] ++ rest) =
          unclosed.text ++ (first ++ ['\n']) ++ rest := (List.append_assoc ..).symm
      rw [shape, text']
      exact next
    · have inLine : '\n' ∉ text ++ unclosed.enclosure.closer := by simp [feed, noFeed]
      obtain ⟨line', later⟩ := line_append inLine after
      rw [line', later, closing, encloses]
      exact LineScan.ReadsAs.after (resumes number line)
        (unclosed.token text number)

/-! ## Texts -/

theorem Scans.resumes {s : List Char} {pieces : Spelling} (scans : Scans s pieces) :
    Resumes s pieces := by
  induction scans with
  | done =>
    intro number line
    exact ⟨none, [], rfl, rfl, rfl, rfl⟩
  | @white c s pieces space plain later ih =>
    intro number line
    by_cases feed : c = '\n'
    · subst feed
      rw [first_line_feed, later_lines_feed, walk, if_pos space, walk]
      exact ⟨none, pieces, rfl, rfl, ih.lines number⟩
    · obtain ⟨line', later'⟩ := line_cons feed s
      rw [line', later', walk, if_pos space]
      exact ih number line
  | @enclosed enclosure text after pieces encloses unreturned later ih =>
    intro number line
    have plain : '\n' ∉ enclosure.opener := by cases enclosure <;> decide
    obtain ⟨line', later'⟩ := line_append plain (text ++ enclosure.closer ++ after)
    rw [line', later', walk_opener]
    exact closing_reads { enclosure, line := number, text := [] } encloses ih number line
  | @lexeme kind c written text after pieces plain last dark closed found later ih =>
    intro number line
    obtain ⟨line', later'⟩ := line_append plain after
    have tail : firstLine after <:+ written ++ firstLine after := List.suffix_append ..
    rw [line', later']
    rw [List.cons_append] at closed found ⊢
    rw [walk, if_neg (by simp [dark]), closed]
    simp only [found, walk_suffix tail]
    exact LineScan.ReadsAs.after (ih number line) _

/-- A text is scanned into the pieces that it is put together from. -/
theorem Scans.read {text : String} {pieces : Spelling} (scans : Scans text.toList pieces) :
    (Source.ofText text).scan.ReadsAs pieces := by
  unfold Source.scan Source.ofText
  rw [text_lines_of_unreturned scans.unreturned]
  exact scans.resumes.lines 0

end TypeDescription
