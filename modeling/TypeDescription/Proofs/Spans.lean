import TypeDescription.Proofs.Encoding
import TypeDescription.Proofs.Tilings

/-!
Where the tokens of a text are. Scanning loses nothing: each token has its own part of the text, in
the order of the tokens, and what is in none of these parts is white space.
-/

namespace TypeDescription

/-! ## Carriage returns -/

/-- A text as it is scanned: of a carriage return and a line feed only the line feed is left. -/
def dropReturns : List Char → List Char
  | '\r' :: '\n' :: rest => '\n' :: dropReturns rest
  | c :: rest => c :: dropReturns rest
  | [] => []

theorem drop_return_cons {c : Char} {line : List Char} (other : c = '\r' → line ≠ ['\n']) :
    dropReturn (c :: line) = c :: dropReturn line := by
  rw [dropReturn]
  rintro rfl rfl
  exact other rfl rfl

/-- The lines of a text are the text as it is scanned. -/
theorem flatten_text_lines (text : List Char) : (Source.textLines text).flatten = dropReturns text := by
  fun_induction dropReturns text with
  | case1 rest ih =>
    rw [← ih]
    rfl
  | case2 c rest other ih =>
    rw [← ih]
    by_cases feed : c = '\n'
    · subst feed
      rfl
    · have goesOn : ¬ (c == '\n') = true := by simpa using feed
      have whole := flatten_splitAfter (· == '\n') rest
      simp only [Source.textLines, splitAfter, if_neg goesOn]
      cases pieces : splitAfter (· == '\n') rest with
      | nil => simp [drop_return_cons, dropReturn]
      | cons piece pieces' =>
        rw [pieces] at whole
        have single : c = '\r' → piece ≠ ['\n'] := by
          rintro rfl rfl
          exact other _ rfl whole.symm
        simp only [List.map_cons, List.flatten_cons, drop_return_cons single, List.cons_append]
  | case3 => rfl

theorem text_lines_are_lines (text : List Char) : AreLines (Source.textLines text) where
  inner := by
    intro line member
    obtain ⟨piece, cut, rfl⟩ := List.mem_map.mp member
    exact drop_return_inner fun feed => by simpa using split_after_inner cut _ feed
  ends := text_lines_end text

theorem AreLines.of_starts {first lines : List (List Char)} (areLines : AreLines lines)
    (starts : first <+: lines) : AreLines first where
  inner := fun line member => areLines.inner line (starts.subset member)
  ends := by
    obtain ⟨rest, rfl⟩ := starts
    intro line member
    by_cases none : rest = []
    · subst none
      rw [List.append_nil] at areLines
      exact areLines.ends line member
    · refine areLines.ends line ?_
      rw [List.dropLast_append_of_ne_nil none]
      exact List.mem_append_left _ (List.dropLast_subset _ member)

/-- Pieces that are cut after the bytes of line feeds are lines, as far as they are texts. -/
private theorem of_byte_lines_are_lines {pieces : List (List UInt8)} {failure : Option String}
    (inner : ∀ piece ∈ pieces, ∀ byte ∈ piece.dropLast, (byte == 10) = false)
    (ends : ∀ piece ∈ pieces.dropLast, piece.getLast? = some 10) :
    AreLines (Source.ofByteLines pieces failure).lines := by
  have nothing : AreLines [] := ⟨fun _ member => (nomatch member), fun _ member => (nomatch member)⟩
  induction pieces with
  | nil => exact nothing
  | cons piece pieces ih =>
    obtain ⟨inner, inner'⟩ := List.forall_mem_cons.mp inner
    rw [Source.ofByteLines]
    split
    · next line decoded =>
      have later : AreLines (Source.ofByteLines pieces failure).lines := by
        refine ih inner' fun other member => ends other ?_
        rw [List.dropLast_cons_of_ne_nil (List.ne_nil_of_mem (List.dropLast_subset _ member))]
        exact List.mem_cons_of_mem _ member
      refine ⟨List.forall_mem_cons.mpr ⟨drop_return_inner (decoded_inner decoded inner), later.inner⟩, ?_⟩
      by_cases last : (Source.ofByteLines pieces failure).lines = []
      · simp [last]
      · have more : pieces ≠ [] := by
          rintro rfl
          exact last rfl
        have complete := ends piece (by simp [List.dropLast_cons_of_ne_nil more])
        have ended := (last_drop_return line.toList).trans (decoded_ends decoded complete)
        rw [List.dropLast_cons_of_ne_nil last]
        exact List.forall_mem_cons.mpr ⟨ended, later.ends⟩
    · exact nothing

/-- Whatever bytes are read, what can be read of them are lines. -/
theorem of_bytes_are_lines (bytes : List UInt8) (failure : Option String) :
    AreLines (Source.ofBytes bytes failure).lines := by
  have inner : ∀ piece ∈ splitAfter (· == 10) bytes, ∀ byte ∈ piece.dropLast, (byte == 10) = false :=
    fun piece member => split_after_inner member
  have ends : ∀ piece ∈ (splitAfter (· == 10) bytes).dropLast, piece.getLast? = some 10 := by
    intro piece member
    obtain ⟨byte, last, feed⟩ := split_after_ends member
    rw [last, eq_of_beq feed]
  cases failure with
  | none => exact of_byte_lines_are_lines inner ends
  | some reason =>
    have starts := prefix_complete_pieces (· == (10 : UInt8)) bytes
    refine of_byte_lines_are_lines (fun piece member => inner piece (starts.subset member)) ?_
    intro piece member
    obtain ⟨-, complete⟩ := List.mem_filter.mp (List.dropLast_subset _ member)
    cases last : piece.getLast? with
    | none =>
      rw [last] at complete
      cases complete
    | some byte =>
      rw [last] at complete
      exact congrArg some (eq_of_beq complete)

/-- What can be read of a text as bytes are lines of the text, all of them unless reading fails. -/
theorem lines_of_bytes (text : String) (failure : Option String) :
    let source := Source.ofBytes text.toUTF8.data.toList failure
    ∃ unread, source.lines ++ unread = Source.textLines text.toList ∧
      (source.failure = none → unread = []) := by
  rw [of_bytes_of_text]
  cases failure with
  | none => exact ⟨[], List.append_nil _, fun _ => rfl⟩
  | some reason =>
    obtain ⟨unread, split⟩ := (prefix_complete_pieces (· == '\n') text.toList).map dropReturn
    exact ⟨unread, split, fun none => nomatch none⟩

/-! ## Spans -/

/-- A part of a text: the characters from `start` up to `stop`. -/
structure Span where
  start : Nat
  stop : Nat
  deriving DecidableEq, Repr

namespace Span

/-- The characters of the part. -/
def text (s : Span) (whole : List Char) : List Char := (whole.take s.stop).drop s.start

/-- Is the character with this index in the part? -/
def Contains (s : Span) (index : Nat) : Prop := s.start ≤ index ∧ index < s.stop

end Span

/-- The token stands in this part of the text. -/
structure Token.StandsAt (whole : List Char) (t : Token) (s : Span) : Prop where
  nonempty : s.start < s.stop
  inside : s.stop ≤ whole.length
  shows : t.Shows (s.text whole)
  line : t.line = 1 + (whole.take s.start).count '\n'

/-- Between two places of a text these tokens stand in these parts of it, in order, and what is in
none of the parts is white space. -/
private structure Covers (whole : List Char) (start stop : Nat) (tokens : List Token) (spans : List Span) :
    Prop where
  standing : List.Forall₂ (Token.StandsAt whole) tokens spans
  apart : spans.Pairwise fun earlier later => earlier.stop ≤ later.start
  bounds : ∀ span ∈ spans, start ≤ span.start ∧ span.start < stop
  gaps : ∀ i c, start ≤ i → i < stop → whole[i]? = some c → (∀ span ∈ spans, ¬ span.Contains i) →
    Unicode.isWhiteSpace c = true

private theorem Covers.white {whole : List Char} {start stop : Nat} {tokens : List Token}
    {spans : List Span} {c : Char} (here : whole[start]? = some c) (space : Unicode.isWhiteSpace c = true)
    (later : Covers whole (start + 1) stop tokens spans) : Covers whole start stop tokens spans where
  standing := later.standing
  apart := later.apart
  bounds := fun span member => ⟨Nat.le_of_succ_le (later.bounds span member).1, (later.bounds span member).2⟩
  gaps := by
    intro i d from_start upTo held outside
    rcases Nat.eq_or_lt_of_le from_start with rfl | beyond
    · rw [here] at held
      exact Option.some.inj held ▸ space
    · exact later.gaps i d beyond upTo held outside

private theorem Covers.token {whole : List Char} {stop : Nat} {tokens : List Token} {spans : List Span}
    {t : Token} {span : Span} (stands : t.StandsAt whole span) (inside : span.stop ≤ stop)
    (later : Covers whole span.stop stop tokens spans) :
    Covers whole span.start stop (t :: tokens) (span :: spans) where
  standing := .cons stands later.standing
  apart := List.pairwise_cons.mpr ⟨fun other member => (later.bounds other member).1, later.apart⟩
  bounds := List.forall_mem_cons.mpr ⟨⟨Nat.le_refl _, Nat.lt_of_lt_of_le stands.nonempty inside⟩,
    fun other member => ⟨Nat.le_trans (Nat.le_of_lt stands.nonempty) (later.bounds other member).1,
      (later.bounds other member).2⟩⟩
  gaps := by
    intro i c from_start upTo held outside
    obtain ⟨notHere, notLater⟩ := List.forall_mem_cons.mp outside
    have beyond : span.stop ≤ i := Nat.le_of_not_lt fun before => notHere ⟨from_start, before⟩
    exact later.gaps i c beyond upTo held notLater

/-- The tokens of a tiled text have their parts of it. -/
private theorem Tiles.covers {line : Nat} {s : List Char} {tokens : List Token} (tiles : Tiles line s tokens)
    {whole before rest : List Char} (shape : whole = before ++ (s ++ rest))
    (here : line = 1 + before.count '\n') :
    ∃ spans, Covers whole before.length (before.length + s.length) tokens spans := by
  induction tiles generalizing before with
  | nil =>
    refine ⟨[], .nil, .nil, fun _ member => (nomatch member), fun i c after upTo => ?_⟩
    exact absurd upTo (Nat.not_lt_of_le after)
  | @white line c s tokens space later ih =>
    have shape' : whole = before ++ [c] ++ (s ++ rest) := by simp [shape]
    obtain ⟨spans, covers⟩ := ih shape' (by rw [here, List.count_append, Nat.add_assoc])
    have first : whole[before.length]? = some c := by simp [shape]
    have length : (before ++ [c]).length + s.length = before.length + (c :: s).length := by
      simp only [List.length_append, List.length_cons, List.length_nil]
      omega
    rw [length, List.length_append] at covers
    exact ⟨spans, covers.white first space⟩
  | @token line t span s tokens nonempty shows starts later ih =>
    have shape' : whole = before ++ span ++ (s ++ rest) := by simp [shape]
    obtain ⟨spans, covers⟩ := ih shape' (by rw [here, List.count_append, Nat.add_assoc])
    let part : Span := { start := before.length, stop := (before ++ span).length }
    have stands : t.StandsAt whole part :=
      { nonempty := by simp [part, List.length_pos_iff.mpr nonempty]
        inside := by simp [part, shape]
        shows := by
          have written : part.text whole = span := by simp [Span.text, part, shape, List.take_append]
          rwa [written]
        line := by simp [part, shape, starts, here] }
    have length : (before ++ span).length + s.length = before.length + (span ++ s).length := by
      rw [List.length_append, List.length_append, Nat.add_assoc]
    rw [length] at covers
    exact ⟨part :: spans, covers.token stands (by rw [← length]; exact Nat.le_add_right ..)⟩

/-- Scanning is lossless. Whether or not it ends with an error, the tokens that are found stand in
parts of the text that follow one another, each on the line that its token says, and all that is
passed over between them is white space. If there is no error, so is all that follows them. -/
theorem scan_lossless (text : String) (failure : Option String) :
    let scan := (Source.ofBytes text.toUTF8.data.toList failure).scan
    let scanned := dropReturns text.toList
    ∃ spans : List Span,
      List.Forall₂ (Token.StandsAt scanned) scan.tokens spans ∧
      spans.Pairwise (fun earlier later => earlier.stop ≤ later.start) ∧
      (∀ i c, scanned[i]? = some c → (∀ span ∈ spans, ¬ span.Contains i) →
        (scan.error = none ∨ ∃ span ∈ spans, i < span.start) → Unicode.isWhiteSpace c = true) ∧
      scan.tokens.length ≤ scanned.length := by
  intro scan scanned
  obtain ⟨unread, split, all⟩ := lines_of_bytes text failure
  have areLines := (text_lines_are_lines text.toList).of_starts ⟨unread, split⟩
  have start : pendingLine (0 + 1) none + (pending none).count '\n' = 0 + 1 := rfl
  obtain ⟨tiled, rest, shape, tiles, leaves⟩ :=
    scan_lines_tiles _ areLines (fun u held => absurd held (Option.not_mem_none u)) start
  have scanned_shape : scanned = [] ++ (tiled ++ (rest ++ unread.flatten)) := calc
    scanned = (Source.textLines text.toList).flatten := (flatten_text_lines text.toList).symm
    _ = tiled ++ rest ++ unread.flatten := by rw [← shape, pending, ← split]; simp
    _ = [] ++ (tiled ++ (rest ++ unread.flatten)) := by simp
  obtain ⟨spans, covers⟩ := tiles.covers scanned_shape rfl
  have length : scanned.length = tiled.length + (rest ++ unread.flatten).length := by
    rw [scanned_shape, List.nil_append, List.length_append]
  refine ⟨spans, covers.standing, covers.apart, fun i c held outside before => ?_,
    Nat.le_trans tiles.length_le (by omega)⟩
  refine covers.gaps i c (Nat.zero_le i) ?_ held outside
  rcases before with clean | ⟨span, member, before⟩
  · -- Nothing is left over, so every index is one of the tiled text.
    obtain ⟨readable, rfl⟩ := leaves.clean clean
    obtain rfl := all readable
    obtain ⟨bound, -⟩ := List.getElem?_eq_some_iff.mp held
    simpa [length] using bound
  · exact Nat.lt_trans before (covers.bounds span member).2

end TypeDescription
