import TypeDescription.Proofs.Cuts
import TypeDescription.Proofs.Lines

/-!
Reading one text after another. No state outlives an item: between items the reader is idle, and a
line that ends with everything closed hands nothing to the next. So a text that is read to its end
without an error, and whose last line is complete, can be cut off: the rest is read as if it stood
alone, and only its line numbers are moved by the lines that were cut off.
-/

namespace TypeDescription

/-! ## Scanning one text after another -/

/-- Lines that are scanned without a fault leave nothing unclosed to the lines after them. -/
theorem scan_lines_append (failure : Option String) (read : Nat) (unclosed : Option Unclosed)
    {first : List (List Char)} (second : List (List Char))
    (whole : (scanLines none read unclosed first).error = none) :
    scanLines failure read unclosed (first ++ second) =
      (scanLines failure (read + first.length) none second).after
        (scanLines none read unclosed first).tokens := by
  rcases scan_lines_cut read unclosed first with ⟨tokens, fault, stop, -, scanned⟩ | ⟨tokens, left, scanned⟩
  · have alone := (scanned none []).1
    rw [List.append_nil] at alone
    rw [alone] at whole
    cases whole
  · have alone := (scanned none []).1
    rw [List.append_nil] at alone
    rw [alone] at whole ⊢
    cases left with
    | none => simp only [(scanned failure second).1, Scan.after, scanLines, List.append_nil]
    | some unclosed => cases whole

private theorem scan_append {a b : String} (complete : ∀ last ∈ a.toList.getLast?, last = '\n')
    (whole : (Source.ofText a).scan.error = none) :
    (Source.ofText (a ++ b)).scan =
      ((Source.ofText b).scan.moved (a.toList.count '\n')).after (Source.ofText a).scan.tokens := by
  have whole : (scanLines none 0 none (Source.textLines a.toList)).error = none := whole
  simp only [Source.scan, Source.ofText, String.toList_append, text_lines_append _ complete]
  rw [scan_lines_append none 0 none _ whole, length_text_lines complete, Nat.zero_add,
    scan_lines_from none (a.toList.count '\n')]

/-! ## Reading one text after another -/

/-- Tokens that are read without a fault leave the reader idle. -/
theorem run_append (fault : Option Error) (reader : Reader) {first : List Token}
    (second : List Token) (whole : (Reader.run none reader first).error = none) :
    Reader.run fault reader (first ++ second) =
      (Reader.run none reader first).followedBy (Reader.run fault .idle second) := by
  cases taken : reader.advance first with
  | error t => exact absurd whole (Reader.error_of_refused taken)
  | ok reader' =>
    have idle : reader'.endFault none = none := (Reader.error_of_taken taken).symm.trans whole
    cases reader' with
    | idle => exact (Reader.cut_of_taken taken fault second).1
    | within identifier line stage => cases idle

theorem run_error_of_fault (reader : Reader) (tokens : List Token) {fault : Error} :
    (Reader.run (some fault) reader tokens).error ≠ none := by
  cases taken : reader.advance tokens with
  | error t => exact Reader.error_of_refused taken
  | ok reader' =>
    rw [Reader.error_of_taken taken]
    cases reader' <;> exact Option.some_ne_none _

/-- A source that is read without an error is scanned without one. -/
theorem scan_error_of_read_all {source : Source} (whole : source.readAll.error = none) :
    source.scan.error = none := by
  cases fault : source.scan.error with
  | none => rfl
  | some fault' =>
    rw [Source.readAll, fault] at whole
    exact absurd whole (run_error_of_fault _ _)

private theorem read_all_append {a b : String} (complete : ∀ last ∈ a.toList.getLast?, last = '\n')
    (whole : (Source.ofText a).readAll.error = none) :
    (Source.ofText (a ++ b)).readAll =
      (Source.ofText a).readAll.followedBy
        ((Source.ofText b).readAll.moved (a.toList.count '\n')) := by
  have scanned := scan_error_of_read_all whole
  rw [Source.readAll, scanned] at whole
  simp only [Source.readAll, scan_append complete scanned, Scan.after, Scan.moved, scanned]
  rw [run_append _ _ _ whole]
  exact congrArg _ (run_moved _ _ .idle _)

/-! ## Options -/

private theorem is_comment_relocated (f : Nat → Nat) (e : Event) :
    (e.relocated f).isComment = e.isComment := by
  cases e <;> rfl

private theorem without_comments_moved (lines : Nat) (o : Outcome) :
    (o.moved lines).withoutComments = o.withoutComments.moved lines := by
  simp only [Outcome.withoutComments, Outcome.moved, Outcome.relocated, List.filter_map, Function.comp_def,
    is_comment_relocated]

private theorem with_source_moved (lines : Nat) (name : String) (o : Outcome) :
    (o.moved lines).withSource name = (o.withSource name).moved lines := by
  cases error : o.error <;>
    simp [Outcome.withSource, Outcome.moved, Outcome.relocated, Error.withSource, Error.relocated, error]

private theorem without_comments_followed_by (first second : Outcome) :
    (first.followedBy second).withoutComments =
      first.withoutComments.followedBy second.withoutComments := by
  simp [Outcome.withoutComments, Outcome.followedBy]

theorem read_error_eq_none_iff (options : ReadOptions) (source : Source) :
    (source.read options).error = none ↔ source.readAll.error = none := by
  rw [read_eq_apply, ReadOptions.error_apply, Option.map_eq_none_iff]

/-- Reading is compositional: a text of complete lines that is read to its end without an error can
be read apart from what follows it. What follows yields what it yields alone, further down. -/
theorem read_append {a b : String} (options : ReadOptions)
    (complete : a = "" ∨ a.toList.getLast? = some '\n')
    (whole : ((Source.ofText a).read options).error = none) :
    (Source.ofText (a ++ b)).read options =
      ((Source.ofText a).read options).followedBy
        (((Source.ofText b).read options).moved (a.toList.count '\n')) := by
  have complete : ∀ last ∈ a.toList.getLast?, last = '\n' := by
    intro last member
    rcases complete with rfl | feed
    · cases member
    · rw [feed] at member
      exact (Option.some.inj member).symm
  have all := read_all_append (b := b) complete ((read_error_eq_none_iff options _).mp whole)
  obtain ⟨name, comments⟩ := options
  cases comments with
  | true =>
    cases name with
    | none => simpa [Source.read] using all
    | some name =>
      simp only [Source.read, ↓reduceIte, all, ← with_source_moved]
      rfl
  | false =>
    cases name with
    | none => simp [Source.read, all, without_comments_followed_by, without_comments_moved]
    | some name =>
      simp only [Source.read, Bool.false_eq_true, ↓reduceIte, all, without_comments_followed_by,
        without_comments_moved, ← with_source_moved]
      rfl

/-- A definition that is complete is not touched by a comment and an unfinished definition after
it; the error is on the third line of both together, and on the second of what follows alone. -/
theorem read_append_after_definition :
    ((Source.ofText "a := b.\n").read .plain).error = none ∧
      (Source.ofText ("a := b.\n" ++ "; c\nd :< 'e")).read .plain =
        ((Source.ofText "a := b.\n").read .plain).followedBy
          (((Source.ofText "; c\nd :< 'e").read .plain).moved 1) := by
  have whole : ((Source.ofText "a := b.\n").read .plain).error = none := by decide +kernel
  exact ⟨whole, read_append .plain (.inr (by decide +kernel)) whole⟩

end TypeDescription
