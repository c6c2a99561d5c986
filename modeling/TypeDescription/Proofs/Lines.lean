import Mathlib.Data.List.Chain
import TypeDescription.Source

/-!
The lines of a text. A line feed can only be the last character of a line, and where no carriage
return stands before a line feed the lines are cut from the text as they are. A source that never
has two carriage returns before a line feed has no carriage return before a line feed in its lines.
-/

namespace TypeDescription

/-! ## Cutting -/

/-- The line that a text starts with. -/
def firstLine (s : List Char) : List Char := (splitAfter (· == '\n') s).headD []

/-- The lines after the first. -/
def laterLines (s : List Char) : List (List Char) := (splitAfter (· == '\n') s).tail

theorem split_after_ne_nil (isLast : α → Bool) {s : List α} (nonempty : s ≠ []) :
    splitAfter isLast s ≠ [] := by
  intro none
  have whole := flatten_splitAfter isLast s
  rw [none] at whole
  exact nonempty whole.symm

theorem split_after_of_ne_nil {s : List Char} (nonempty : s ≠ []) :
    splitAfter (· == '\n') s = firstLine s :: laterLines s := by
  obtain ⟨line, lines, shape⟩ := List.exists_cons_of_ne_nil (split_after_ne_nil _ nonempty)
  rw [firstLine, laterLines, shape]
  rfl

theorem first_line_feed (s : List Char) : firstLine ('\n' :: s) = ['\n'] := rfl

theorem later_lines_feed (s : List Char) : laterLines ('\n' :: s) = splitAfter (· == '\n') s := rfl

theorem line_cons {c : Char} (plain : c ≠ '\n') (s : List Char) :
    firstLine (c :: s) = c :: firstLine s ∧ laterLines (c :: s) = laterLines s := by
  have other : (c == '\n') = false := by simpa using plain
  rw [firstLine, laterLines, firstLine, laterLines, splitAfter, if_neg (by simp [other])]
  cases splitAfter (· == '\n') s <;> exact ⟨rfl, rfl⟩

/-- What has no line feed stays on the line. -/
theorem line_append {first : List Char} (plain : '\n' ∉ first) (s : List Char) :
    firstLine (first ++ s) = first ++ firstLine s ∧ laterLines (first ++ s) = laterLines s := by
  induction first with
  | nil => exact ⟨rfl, rfl⟩
  | cons c rest ih =>
    have here : c ≠ '\n' := fun same => plain (same ▸ List.mem_cons_self ..)
    obtain ⟨line, later⟩ := ih fun member => plain (List.mem_cons_of_mem _ member)
    obtain ⟨line', later'⟩ := line_cons here (rest ++ s)
    rw [List.cons_append, line', later', line, later, List.cons_append]
    exact ⟨rfl, rfl⟩

/-- What has a line feed at its end is a line. -/
theorem line_append_feed {first : List Char} (plain : '\n' ∉ first) (s : List Char) :
    firstLine (first ++ '\n' :: s) = first ++ ['\n'] ∧
      laterLines (first ++ '\n' :: s) = splitAfter (· == '\n') s := by
  obtain ⟨line, later⟩ := line_append plain ('\n' :: s)
  rw [line, later, first_line_feed, later_lines_feed]
  exact ⟨rfl, rfl⟩

theorem first_line_prefix (s : List Char) : firstLine s <+: s := by
  induction s with
  | nil => exact List.prefix_refl []
  | cons c rest ih =>
    by_cases feed : c = '\n'
    · rw [feed, first_line_feed]
      exact ⟨rest, rfl⟩
    · rw [(line_cons feed rest).1]
      exact List.cons_prefix_cons.mpr ⟨rfl, ih⟩

/-- Only the last element of a piece ends it. -/
theorem split_after_inner {isLast : α → Bool} {s piece : List α} (member : piece ∈ splitAfter isLast s) :
    ∀ a ∈ piece.dropLast, isLast a = false := by
  fun_induction splitAfter isLast s generalizing piece with
  | case1 => cases member
  | case2 a rest ends ih =>
    rcases List.mem_cons.mp member with rfl | member
    · exact fun b inside => nomatch inside
    · exact ih member
  | case3 a rest goesOn none ih =>
    obtain rfl := List.mem_singleton.mp member
    exact fun b inside => nomatch inside
  | case4 a rest goesOn first pieces shape ih =>
    rw [shape] at ih
    rcases List.mem_cons.mp member with rfl | member
    · intro b inside
      cases first with
      | nil => cases inside
      | cons d first =>
        rw [List.dropLast_cons_cons] at inside
        rcases List.mem_cons.mp inside with rfl | inside
        · simpa using goesOn
        · exact ih (List.mem_cons_self ..) b inside
    · exact ih (List.mem_cons_of_mem _ member)

/-- Every piece but the last one ends as it should. -/
theorem split_after_ends {isLast : α → Bool} {s piece : List α}
    (member : piece ∈ (splitAfter isLast s).dropLast) : ∃ a, piece.getLast? = some a ∧ isLast a := by
  fun_induction splitAfter isLast s generalizing piece with
  | case1 => cases member
  | case2 a rest ends ih =>
    cases pieces : splitAfter isLast rest with
    | nil =>
      rw [pieces] at member
      cases member
    | cons first pieces' =>
      rw [pieces, List.dropLast_cons_cons] at member
      rw [pieces] at ih
      rcases List.mem_cons.mp member with rfl | member
      · exact ⟨a, rfl, ends⟩
      · exact ih member
  | case3 => cases member
  | case4 a rest goesOn first pieces shape ih =>
    rw [shape] at ih
    cases pieces with
    | nil => cases member
    | cons second pieces =>
      rw [List.dropLast_cons_cons] at member ih
      rcases List.mem_cons.mp member with rfl | member
      · obtain ⟨b, last, ends⟩ := ih (List.mem_cons_self ..)
        refine ⟨b, ?_, ends⟩
        obtain ⟨d, first, rfl⟩ := List.exists_cons_of_ne_nil (List.ne_nil_of_mem (List.mem_of_getLast? last))
        rwa [List.getLast?_cons_cons]
      · exact ih (List.mem_cons_of_mem _ member)

/-- A text on a line that is followed by its closing character has no line feed. -/
theorem plain_of_suffix {line text after : List Char} {closer : Char} (inner : '\n' ∉ line.dropLast)
    (first : List Char) (tail : first ++ text ++ closer :: after <:+ line) : '\n' ∉ text := by
  intro member
  obtain ⟨before, rfl⟩ := tail
  refine inner ?_
  rw [List.dropLast_append_of_ne_nil (by simp), List.dropLast_append_of_ne_nil (by simp)]
  simp [member]

/-! ## One text after another -/

/-- A sequence that `splitAfter` can cut off: it is empty, or its last element ends a piece. -/
def Complete (isLast : α → Bool) (s : List α) : Prop :=
  ∀ last ∈ s.getLast?, isLast last = true

private theorem complete_tail {isLast : α → Bool} {a : α} {rest : List α}
    (complete : Complete isLast (a :: rest)) : Complete isLast rest := by
  intro last member
  apply complete
  cases rest with
  | nil => cases member
  | cons b rest => rwa [List.getLast?_cons_cons]

/-- An element that does not end a piece has the rest of its piece after it. -/
private theorem split_after_goes_on {isLast : α → Bool} {a : α} {rest : List α}
    (complete : Complete isLast (a :: rest)) (goesOn : ¬ isLast a = true) :
    ∃ piece pieces, splitAfter isLast rest = piece :: pieces := by
  have more : rest ≠ [] := by
    rintro rfl
    exact goesOn (complete a rfl)
  exact List.exists_cons_of_ne_nil (split_after_ne_nil isLast more)

theorem split_after_append (isLast : α → Bool) {first : List α} (second : List α)
    (complete : Complete isLast first) :
    splitAfter isLast (first ++ second) = splitAfter isLast first ++ splitAfter isLast second := by
  induction first with
  | nil => rfl
  | cons a rest ih =>
    have ih := ih (complete_tail complete)
    by_cases ends : isLast a = true
    · simp only [List.cons_append, splitAfter, if_pos ends, ih]
    · obtain ⟨piece, pieces, cut⟩ := split_after_goes_on complete ends
      simp only [List.cons_append, splitAfter, if_neg ends, ih, cut]

theorem length_split_after (isLast : α → Bool) {s : List α} (complete : Complete isLast s) :
    (splitAfter isLast s).length = s.countP isLast := by
  induction s with
  | nil => rfl
  | cons a rest ih =>
    have ih := ih (complete_tail complete)
    by_cases ends : isLast a = true
    · simp only [splitAfter, if_pos ends, List.length_cons, ih, List.countP_cons_of_pos ends]
    · obtain ⟨piece, pieces, cut⟩ := split_after_goes_on complete ends
      rw [cut] at ih
      simp only [splitAfter, if_neg ends, cut, List.countP_cons_of_neg ends, ← ih,
        List.length_cons]

/-- All pieces of such a sequence end as they should. -/
theorem complete_pieces_of_complete {isLast : α → Bool} {s : List α} (complete : Complete isLast s) :
    completePieces isLast (splitAfter isLast s) = splitAfter isLast s := by
  rw [completePieces, List.filter_eq_self]
  induction s with
  | nil => exact fun _ member => nomatch member
  | cons a rest ih =>
    have ih := ih (complete_tail complete)
    by_cases ends : isLast a = true
    · rw [splitAfter, if_pos ends]
      exact List.forall_mem_cons.mpr ⟨ends, ih⟩
    · obtain ⟨piece, pieces, cut⟩ := split_after_goes_on complete ends
      rw [cut] at ih
      obtain ⟨here, later⟩ := List.forall_mem_cons.mp ih
      simp only [splitAfter, if_neg ends, cut]
      refine List.forall_mem_cons.mpr ⟨?_, later⟩
      cases piece with
      | nil => cases here
      | cons b piece => rwa [List.getLast?_cons_cons]

/-- Only the last piece can fail to end as it should. -/
theorem prefix_complete_pieces (isLast : α → Bool) (s : List α) :
    completePieces isLast (splitAfter isLast s) <+: splitAfter isLast s := by
  rcases List.eq_nil_or_concat (splitAfter isLast s) with none | ⟨before, last, shape⟩
  · rw [none]
    exact List.prefix_refl _
  · have kept : before.filter (fun piece => piece.getLast?.any isLast) = before := by
      rw [List.filter_eq_self]
      intro piece member
      have inside : piece ∈ (splitAfter isLast s).dropLast := by
        rwa [shape, List.concat_eq_append, List.dropLast_concat]
      obtain ⟨a, ends, isEnd⟩ := split_after_ends inside
      rw [ends]
      exact isEnd
    rw [shape, completePieces, List.concat_eq_append, List.filter_append, kept,
      List.prefix_append_right_inj, List.filter_singleton]
    cases last.getLast?.any isLast with
    | true => exact List.prefix_refl _
    | false => exact List.nil_prefix

private theorem complete_cons {isLast : α → Bool} {a : α} {rest : List α}
    (complete : Complete isLast rest) (alone : rest = [] → isLast a = true) :
    Complete isLast (a :: rest) := by
  intro last member
  cases rest with
  | nil => exact Option.some.inj member ▸ alone rfl
  | cons b rest => exact complete last (by rwa [List.getLast?_cons_cons] at member)

/-- A sequence can be cut off after as many pieces as it has ends. -/
theorem exists_first_pieces (isLast : α → Bool) {s : List α} {k : Nat} (enough : k ≤ s.countP isLast) :
    ∃ first rest, s = first ++ rest ∧ Complete isLast first ∧ first.countP isLast = k := by
  have nothing : Complete isLast ([] : List α) := fun last member => (nomatch member)
  induction s generalizing k with
  | nil => exact ⟨[], [], rfl, nothing, (Nat.le_zero.mp enough).symm⟩
  | cons a s ih =>
    cases k with
    | zero => exact ⟨[], a :: s, rfl, nothing, rfl⟩
    | succ k =>
      by_cases ends : isLast a = true
      · rw [List.countP_cons_of_pos ends, Nat.succ_le_succ_iff] at enough
        obtain ⟨first, rest, rfl, complete, count⟩ := ih enough
        exact ⟨a :: first, rest, rfl, complete_cons complete fun _ => ends, by
          rw [List.countP_cons_of_pos ends, count]⟩
      · rw [List.countP_cons_of_neg ends] at enough
        obtain ⟨first, rest, rfl, complete, count⟩ := ih enough
        refine ⟨a :: first, rest, rfl, complete_cons complete fun none => ?_, by
          rw [List.countP_cons_of_neg ends, count]⟩
        rw [none] at count
        cases count

/-- The lines of a text that goes on after a complete line. -/
theorem text_lines_append {first : List Char} (second : List Char)
    (complete : ∀ last ∈ first.getLast?, last = '\n') :
    Source.textLines (first ++ second) = Source.textLines first ++ Source.textLines second := by
  have complete : Complete (· == '\n') first := fun last member => by simp [complete last member]
  simp only [Source.textLines, split_after_append _ second complete, List.map_append]

/-- A text of complete lines has as many lines as line feeds. -/
theorem length_text_lines {text : List Char} (complete : ∀ last ∈ text.getLast?, last = '\n') :
    (Source.textLines text).length = text.count '\n' := by
  have complete : Complete (· == '\n') text := fun last member => by simp [complete last member]
  simp only [Source.textLines, List.length_map, length_split_after _ complete, List.count]

/-! ## Carriage returns -/

/-- No carriage return stands before a line feed. -/
def Unreturned (s : List Char) : Prop := s.IsChain fun c d => ¬ (c = '\r' ∧ d = '\n')

theorem drop_return_of_unreturned {s : List Char} (unreturned : Unreturned s) : dropReturn s = s := by
  fun_induction dropReturn s with
  | case1 =>
    have apart := (List.isChain_cons_cons.mp unreturned).1
    exact absurd ⟨rfl, rfl⟩ apart
  | case2 c rest other ih => rw [ih unreturned.tail]
  | case3 => rfl

theorem line_within {s line : List Char} (member : line ∈ splitAfter (· == '\n') s) : line <:+: s := by
  have inside := List.infix_of_mem_flatten member
  rwa [flatten_splitAfter] at inside

/-- The lines of such a text are cut from it as they are. -/
theorem text_lines_of_unreturned {s : List Char} (unreturned : Unreturned s) :
    Source.textLines s = splitAfter (· == '\n') s := by
  have same : (splitAfter (· == '\n') s).map dropReturn = (splitAfter (· == '\n') s).map id := by
    apply List.map_congr_left
    intro line member
    have kept : Unreturned line := List.IsChain.infix unreturned (line_within member)
    exact drop_return_of_unreturned kept
  rw [Source.textLines, same, List.map_id]

theorem Unreturned.append {first second : List Char} (unreturned : Unreturned first)
    (unreturned' : Unreturned second)
    (apart : first.getLast? ≠ some '\r' ∨ second.head? ≠ some '\n') :
    Unreturned (first ++ second) := by
  refine List.isChain_append.mpr ⟨unreturned, unreturned', fun c last d head same => ?_⟩
  obtain ⟨rfl, rfl⟩ := same
  rcases apart with apart | apart
  · exact apart last
  · exact apart head

theorem unreturned_of_plain {s : List Char} (plain : '\n' ∉ s) : Unreturned s := by
  induction s with
  | nil => exact List.isChain_nil
  | cons c rest ih =>
    have later := ih fun member => plain (List.mem_cons_of_mem _ member)
    cases rest with
    | nil => exact List.isChain_singleton _
    | cons d rest =>
      refine List.isChain_cons_cons.mpr ⟨fun same => plain ?_, later⟩
      rw [← same.2]
      exact List.mem_cons_of_mem _ (List.mem_cons_self ..)

theorem unreturned_of_no_return_feed {s : List Char} (none : ¬ ['\r', '\n'] <:+: s) : Unreturned s := by
  apply List.isChain_iff_forall_rel_of_append_cons_cons.mpr
  rintro c d before after rfl ⟨rfl, rfl⟩
  exact none ⟨before, after, by simp⟩

/-- What is left of a line that does not have two carriage returns before its line feed. -/
theorem drop_return_unreturned {line : List Char} (plain : '\n' ∉ line.dropLast)
    (single : ¬ ['\r', '\r', '\n'] <:+: line) : Unreturned (dropReturn line) := by
  fun_induction dropReturn line with
  | case1 => exact List.isChain_singleton _
  | case2 c rest other ih =>
    cases rest with
    | nil => exact List.isChain_singleton _
    | cons d rest =>
      rw [List.dropLast_cons_cons] at plain
      have inside : ¬ ['\r', '\r', '\n'] <:+: d :: rest := fun found => single (List.infix_cons found)
      have later := ih (fun member => plain (List.mem_cons_of_mem _ member)) inside
      have head : ∀ e ∈ (dropReturn (d :: rest)).head?, ¬ (c = '\r' ∧ e = '\n') := by
        rintro e member ⟨rfl, rfl⟩
        by_cases returns : d :: rest = ['\r', '\n']
        · rw [returns] at single
          exact single (List.infix_refl _)
        · have feed : d = '\n' := by
            rw [dropReturn] at member
            · simpa using member
            · exact fun same same' => returns (by rw [same, same'])
          subst feed
          cases rest with
          | nil => exact other rfl rfl
          | cons e rest =>
            rw [List.dropLast_cons_cons] at plain
            exact plain (List.mem_cons_of_mem _ (List.mem_cons_self ..))
      cases shape : dropReturn (d :: rest) with
      | nil => exact List.isChain_singleton _
      | cons e rest' =>
        rw [shape] at head later
        exact List.isChain_cons_cons.mpr ⟨head e rfl, later⟩
  | case3 => exact List.isChain_nil

private theorem drop_return_eq_nil_iff {line : List Char} : dropReturn line = [] ↔ line = [] := by
  fun_cases dropReturn line <;> simp_all

theorem drop_return_inner {line : List Char} (inner : '\n' ∉ line.dropLast) :
    '\n' ∉ (dropReturn line).dropLast := by
  fun_induction dropReturn line with
  | case1 => exact List.not_mem_nil
  | case2 c rest other ih =>
    by_cases none : rest = []
    · subst none
      exact List.not_mem_nil
    · have kept : dropReturn rest ≠ [] := mt drop_return_eq_nil_iff.mp none
      rw [List.dropLast_cons_of_ne_nil none, List.mem_cons, not_or] at inner
      rw [List.dropLast_cons_of_ne_nil kept, List.mem_cons, not_or]
      exact ⟨inner.1, ih inner.2⟩
  | case3 => exact List.not_mem_nil

/-- A line keeps its end. -/
theorem last_drop_return (line : List Char) : (dropReturn line).getLast? = line.getLast? := by
  fun_induction dropReturn line with
  | case1 => rfl
  | case2 c rest other ih =>
    by_cases none : rest = []
    · subst none
      rfl
    · have kept : dropReturn rest ≠ [] := mt drop_return_eq_nil_iff.mp none
      rw [List.getLast?_cons_of_ne_nil none, List.getLast?_cons_of_ne_nil kept, ih]
  | case3 => rfl

theorem text_lines_end (text : List Char) :
    ∀ line ∈ (Source.textLines text).dropLast, line.getLast? = some '\n' := by
  intro line member
  rw [Source.textLines, ← List.map_dropLast] at member
  obtain ⟨piece, cut, rfl⟩ := List.mem_map.mp member
  obtain ⟨c, last, feed⟩ := split_after_ends cut
  have feed : c = '\n' := by simpa using feed
  rw [last_drop_return, last, feed]

end TypeDescription
