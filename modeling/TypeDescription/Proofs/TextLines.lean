import TypeDescription.Proofs.Lines

/-!
A line in its text. A text is cut after its line feeds, so a line has whole lines above it and ends
with its terminator: a line feed, a carriage return and a line feed, or nothing at the end of the
text. What is added before the terminator stays on the line.
-/

namespace TypeDescription

/-! ## Terminators -/

theorem drop_return_feed {s : List Char} (plain : '\n' ∉ s) (last : s.getLast? ≠ some '\r') :
    dropReturn (s ++ ['\n']) = s ++ ['\n'] :=
  drop_return_of_unreturned ((unreturned_of_plain plain).append (List.isChain_singleton _) (.inl last))

theorem drop_return_return_feed {s : List Char} : dropReturn (s ++ ['\r', '\n']) = s ++ ['\n'] := by
  induction s with
  | nil => rfl
  | cons c rest ih =>
    rw [List.cons_append, dropReturn, ih, List.cons_append]
    intro _ same
    have lengths := congrArg List.length same
    simp at lengths

/-- A line with its terminator, as it is cut off a text. -/
theorem text_lines_cons {line terminator : List Char} (below : List Char) (plain : '\n' ∉ line)
    (ends : terminator = ['\n'] ∨ terminator = ['\r', '\n'] ∨ terminator = [] ∧ below = [] ∧ line ≠ []) :
    Source.textLines (line ++ terminator ++ below) =
      dropReturn (line ++ terminator) :: Source.textLines below := by
  have fed {s : List Char} (plain : '\n' ∉ s) :
      Source.textLines (s ++ '\n' :: below) = dropReturn (s ++ ['\n']) :: Source.textLines below := by
    obtain ⟨first, later⟩ := line_append_feed plain below
    rw [Source.textLines, split_after_of_ne_nil (by simp), first, later]
    rfl
  rcases ends with rfl | rfl | ⟨rfl, rfl, nonempty⟩
  · simpa using fed plain
  · have returned : '\n' ∉ line ++ ['\r'] := by simp [plain]
    simpa using fed returned
  · obtain ⟨first, later⟩ := line_append plain []
    rw [List.append_nil] at first later
    rw [List.append_nil, List.append_nil, Source.textLines, split_after_of_ne_nil nonempty, first, later,
      show firstLine [] = [] from rfl, List.append_nil]
    rfl

/-! ## Lines in a text -/

/-- A line of a text: the lines above it, what stands on it, its terminator, and what is below it. -/
structure TextLine where
  above : List Char
  content : List Char
  terminator : List Char
  below : List Char
  complete : ∀ last ∈ above.getLast?, last = '\n'
  plain : '\n' ∉ content
  ends : terminator = ['\n'] ∧ content.getLast? ≠ some '\r' ∨ terminator = ['\r', '\n'] ∨
    terminator = [] ∧ below = [] ∧ content ≠ []

namespace TextLine

/-- The text with something added at the end of the line, before its terminator. -/
def textWith (line : TextLine) (addition : List Char) : List Char :=
  line.above ++ (line.content ++ addition ++ line.terminator ++ line.below)

/-- The text that the line is on. -/
def text (line : TextLine) : List Char := line.textWith []

/-- The number of the line. -/
def number (line : TextLine) : Nat := line.above.count '\n' + 1

/-- What is read of the terminator. -/
def ending (line : TextLine) : List Char := if line.terminator = [] then [] else ['\n']

variable (line : TextLine)

theorem ending_cases : line.ending = [] ∨ line.ending = ['\n'] := by
  rw [ending]
  split
  · exact .inl rfl
  · exact .inr rfl

theorem text_lines_with {addition : List Char} (plain : '\n' ∉ addition) :
    Source.textLines (line.textWith addition) = Source.textLines line.above ++
      dropReturn (line.content ++ addition ++ line.terminator) :: Source.textLines line.below := by
  have plain' : '\n' ∉ line.content ++ addition := by simp [line.plain, plain]
  have ends : line.terminator = ['\n'] ∨ line.terminator = ['\r', '\n'] ∨
      line.terminator = [] ∧ line.below = [] ∧ line.content ++ addition ≠ [] := by
    refine line.ends.imp And.left (Or.imp_right fun nothing => ⟨nothing.1, nothing.2.1, ?_⟩)
    exact List.append_ne_nil_of_left_ne_nil nothing.2.2 _
  rw [textWith, text_lines_append _ line.complete, text_lines_cons _ plain' ends]

/-- The lines of the text. -/
theorem text_lines : Source.textLines line.text =
    Source.textLines line.above ++ (line.content ++ line.ending) :: Source.textLines line.below := by
  rw [text, line.text_lines_with List.not_mem_nil, List.append_nil, ending]
  rcases line.ends with ⟨ends, last⟩ | ends | ⟨ends, -⟩
  · rw [ends, drop_return_feed line.plain last]
    rfl
  · rw [ends, drop_return_return_feed]
    rfl
  · rw [ends, List.append_nil, drop_return_of_unreturned (unreturned_of_plain line.plain), if_pos rfl,
      List.append_nil]

theorem length_above : (Source.textLines line.above).length + 1 = line.number := by
  rw [length_text_lines line.complete, number]

end TextLine

private theorem exists_first_line {text : List Char} (nonempty : text ≠ []) :
    ∃ line : TextLine, line.text = text ∧ line.above = [] := by
  have complete : ∀ last ∈ ([] : List Char).getLast?, last = '\n' := fun last member => nomatch member
  by_cases feed : '\n' ∈ text
  · obtain ⟨s, below, rfl, plain⟩ := List.eq_append_cons_of_mem feed
    by_cases returned : s.getLast? = some '\r'
    · obtain ⟨before, rfl⟩ := List.getLast?_eq_some_iff.mp returned
      have plain' : '\n' ∉ before := fun member => plain (List.mem_append_left _ member)
      refine ⟨⟨[], before, ['\r', '\n'], below, complete, plain', .inr (.inl rfl)⟩, ?_, rfl⟩
      simp [TextLine.text, TextLine.textWith]
    · refine ⟨⟨[], s, ['\n'], below, complete, plain, .inl ⟨rfl, returned⟩⟩, ?_, rfl⟩
      simp [TextLine.text, TextLine.textWith]
  · refine ⟨⟨[], text, [], [], complete, feed, .inr (.inr ⟨rfl, rfl, nonempty⟩)⟩, ?_, rfl⟩
    simp [TextLine.text, TextLine.textWith]

/-- Every line of a text is one. -/
theorem exists_text_line {text : List Char} {k : Nat} (small : k < (Source.textLines text).length) :
    ∃ line : TextLine, line.text = text ∧ line.number = k + 1 := by
  have nonempty : text ≠ [] := by
    rintro rfl
    cases small
  induction k generalizing text with
  | zero =>
    obtain ⟨line, same, first⟩ := exists_first_line nonempty
    exact ⟨line, same, by rw [TextLine.number, first]; rfl⟩
  | succ k ih =>
    by_cases feed : '\n' ∈ text
    · obtain ⟨s, below, rfl, plain⟩ := List.eq_append_cons_of_mem feed
      have cut := text_lines_cons below plain (.inl rfl)
      rw [List.append_assoc, List.singleton_append] at cut
      rw [cut, List.length_cons, Nat.succ_lt_succ_iff] at small
      have more : below ≠ [] := by
        rintro rfl
        cases small
      obtain ⟨line, rfl, number⟩ := ih small more
      let complete : ∀ last ∈ (s ++ '\n' :: line.above).getLast?, last = '\n' := by
        intro last member
        rw [List.getLast?_append_cons] at member
        cases above : line.above with
        | nil =>
          rw [above] at member
          exact (Option.some.inj member).symm
        | cons c rest =>
          rw [above, List.getLast?_cons_cons, ← above] at member
          exact line.complete last member
      refine ⟨{ line with above := s ++ '\n' :: line.above, complete }, ?_, ?_⟩
      · simp [TextLine.text, TextLine.textWith]
      · rw [TextLine.number] at number ⊢
        rw [List.count_append, List.count_eq_zero.mpr plain, List.count_cons_self]
        omega
    · have cut := text_lines_cons [] feed (.inr (.inr ⟨rfl, rfl, nonempty⟩))
      rw [List.append_nil, List.append_nil] at cut
      rw [cut] at small
      simp [Source.textLines, splitAfter] at small

end TypeDescription
