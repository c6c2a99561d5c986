import TypeDescription.Proofs.Encoding
import TypeDescription.Stream

/-!
The two conventions for line ends. A carriage return may be put before any line feed of a text that
has none: each line loses its own one again before it is scanned, so the scanner walks over the same
lines. It does not matter what a line feed stands in, or whether the conventions are mixed.
-/

namespace TypeDescription

/-- The text with carriage returns before the chosen line feeds, which are counted from zero. -/
def withReturns (chosen : Nat → Bool) : List Char → List Char
  | [] => []
  | c :: rest =>
    if c = '\n' then
      (if chosen 0 then ['\r', '\n'] else ['\n']) ++ withReturns (fun index => chosen (index + 1)) rest
    else
      c :: withReturns chosen rest

/-! ## Lines -/

theorem with_no_returns (text : List Char) : withReturns (fun _ => false) text = text := by
  induction text with
  | nil => rfl
  | cons c rest ih =>
    rw [withReturns, ih]
    split
    · next feed =>
      rw [feed]
      rfl
    · rfl

/-- The lines that are cut from the text with carriage returns are those of the text. -/
theorem pieces_with_returns {text : List Char} (noReturn : '\r' ∉ text) (chosen : Nat → Bool) :
    (splitAfter (· == '\n') (withReturns chosen text)).map dropReturn = splitAfter (· == '\n') text := by
  induction text generalizing chosen with
  | nil => rfl
  | cons c rest ih =>
    rw [List.mem_cons, not_or] at noReturn
    obtain ⟨other, noReturn⟩ := noReturn
    by_cases feed : c = '\n'
    · subst feed
      have later := ih noReturn fun index => chosen (index + 1)
      rw [withReturns, if_pos rfl]
      cases chosen 0 <;> simp [splitAfter, dropReturn, later]
    · have later := ih noReturn chosen
      have goesOn : ¬ (c == '\n') = true := by simpa using feed
      rw [withReturns, if_neg feed, splitAfter, if_neg goesOn, splitAfter, if_neg goesOn, ← later]
      cases splitAfter (· == '\n') (withReturns chosen rest) with
      | nil => simp [dropReturn]
      | cons piece pieces =>
        have kept : dropReturn (c :: piece) = c :: dropReturn piece := by
          rw [dropReturn]
          exact fun same => absurd same.symm other
        simp [kept]

/-- A line that loses its carriage return stays complete, and no other line becomes complete. -/
theorem complete_pieces_drop_return (pieces : List (List Char)) :
    (completePieces (· == '\n') pieces).map dropReturn =
      completePieces (· == '\n') (pieces.map dropReturn) := by
  simp only [completePieces, List.filter_map, Function.comp_def, last_drop_return]

/-- The reader of a source cannot tell which of its line feeds had carriage returns before them, even
if reading fails later. -/
theorem source_with_returns {text : String} (noReturn : '\r' ∉ text.toList) (chosen : Nat → Bool)
    (failure : Option String) :
    Source.ofBytes (String.ofList (withReturns chosen text.toList)).toUTF8.data.toList failure =
      Source.ofBytes text.toUTF8.data.toList failure := by
  have pieces := pieces_with_returns noReturn chosen
  have unreturned : (splitAfter (· == '\n') text.toList).map dropReturn = splitAfter (· == '\n') text.toList := by
    have plain := pieces_with_returns noReturn fun _ => false
    rwa [with_no_returns] at plain
  rw [of_bytes_of_text, of_bytes_of_text, String.toList_ofList]
  cases failure with
  | none => rw [Source.textLines, Source.textLines, pieces, unreturned]
  | some reason =>
    simp only [complete_pieces_drop_return, pieces, unreturned]

/-- Line ends of both conventions read alike. Carriage returns before any of the line feeds of a text
leave the tokens and their lines as they are, and with them all that is read: the events, the
warnings and the error. -/
theorem line_ends_do_not_matter {text : String} (noReturn : '\r' ∉ text.toList) (chosen : Nat → Bool)
    (failure : Option String) :
    let source := Source.ofBytes text.toUTF8.data.toList failure
    let returned := Source.ofBytes (String.ofList (withReturns chosen text.toList)).toUTF8.data.toList failure
    returned.scan = source.scan ∧ ∀ options, returned.read options = source.read options := by
  intro source returned
  have same : returned = source := source_with_returns noReturn chosen failure
  rw [same]
  exact ⟨rfl, fun options => rfl⟩

/-- Carriage returns inside a docstring, after a backslash in a comment and after a letter set, but not
at the end of the definition. -/
theorem line_ends_do_not_matter_where_mixed :
    let text := "%(letters)\n#| a\\\n |#\nx := \"\"\"b\n\"\"\" y.\nz"
    let mixed := "%(letters)\r\n#| a\\\r\n |#\nx := \"\"\"b\r\n\"\"\" y.\nz"
    let source := Source.ofBytes text.toUTF8.data.toList none
    let returned := Source.ofBytes mixed.toUTF8.data.toList none
    '\r' ∉ text.toList ∧ returned.scan = source.scan ∧ returned.read .plain = source.read .plain := by
  intro text mixed source returned
  have noReturn : '\r' ∉ text.toList := by decide
  have chosen : String.ofList (withReturns (fun index => [0, 1, 3].contains index) text.toList) = mixed := by
    decide
  have alike := line_ends_do_not_matter noReturn (fun index => [0, 1, 3].contains index) none
  rw [chosen] at alike
  exact ⟨noReturn, alike.1, alike.2 .plain⟩

end TypeDescription
