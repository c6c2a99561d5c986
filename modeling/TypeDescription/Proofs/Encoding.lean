import TypeDescription.Proofs.Lines

/-!
The lines of a text that is read as bytes. A line feed is encoded as itself, and no other character
has its byte in its encoding; so a text is cut into the same lines before it is encoded and after.
-/

namespace TypeDescription

/-! ## Characters -/

/-- A character of one byte is encoded as that byte, and all bytes of other characters are higher. -/
theorem encode_char_cases (c : Char) :
    (c.toNat < 128 ∧ String.utf8EncodeChar c = [UInt8.ofNat c.toNat]) ∨
      128 ≤ c.toNat ∧ ∀ byte ∈ String.utf8EncodeChar c, 128 ≤ byte := by
  have high {n : Nat} (bounds : 128 ≤ n ∧ n < 256) : 128 ≤ UInt8.ofNat n := by
    rw [UInt8.le_iff_toNat_le, UInt8.toNat_ofNat', Nat.mod_eq_of_lt bounds.2]
    exact bounds.1
  by_cases small : c.val.toNat ≤ 127
  · exact .inl ⟨Nat.lt_succ_of_le small, by rw [String.utf8EncodeChar, if_pos small]; rfl⟩
  · refine .inr ⟨Nat.lt_of_not_le small, fun byte member => ?_⟩
    rw [String.utf8EncodeChar, if_neg small] at member
    split at member
    · simp only [List.mem_cons, List.not_mem_nil, or_false] at member
      rcases member with rfl | rfl <;> exact high (by omega)
    · split at member
      · simp only [List.mem_cons, List.not_mem_nil, or_false] at member
        rcases member with rfl | rfl | rfl <;> exact high (by omega)
      · simp only [List.mem_cons, List.not_mem_nil, or_false] at member
        rcases member with rfl | rfl | rfl | rfl <;> exact high (by omega)

/-- The byte of a line feed is in the encoding of no other character. -/
theorem encode_plain {c : Char} (plain : c ≠ '\n') :
    ∀ byte ∈ String.utf8EncodeChar c, (byte == 10) = false := by
  intro byte member
  rw [beq_eq_false_iff_ne]
  rintro rfl
  rcases encode_char_cases c with ⟨small, single⟩ | ⟨-, high⟩
  · rw [single, List.mem_singleton] at member
    have numbers := congrArg UInt8.toNat member
    rw [UInt8.toNat_ofNat', Nat.mod_eq_of_lt (Nat.lt_trans small (by decide))] at numbers
    exact plain (Char.toNat_inj.mp numbers.symm)
  · exact absurd (high 10 member) (by decide)

/-! ## Lines -/

/-- A sequence in which no piece ends stays in one piece. -/
theorem split_after_plain {isLast : α → Bool} {first : List α} (nonempty : first ≠ [])
    (plain : ∀ a ∈ first, isLast a = false) (s : List α) :
    splitAfter isLast (first ++ s) =
      match splitAfter isLast s with
      | [] => [first]
      | piece :: pieces => (first ++ piece) :: pieces := by
  induction first with
  | nil => exact absurd rfl nonempty
  | cons a first ih =>
    obtain ⟨here, later⟩ := List.forall_mem_cons.mp plain
    rw [List.cons_append, splitAfter, if_neg (by simp [here])]
    by_cases last : first = []
    · subst last
      rfl
    · rw [ih last later]
      cases splitAfter isLast s <;> rfl

/-- The bytes of a text. -/
def encode (text : List Char) : List UInt8 := text.flatMap String.utf8EncodeChar

theorem encode_cons (c : Char) (rest : List Char) :
    encode (c :: rest) = String.utf8EncodeChar c ++ encode rest := List.flatMap_cons

theorem encode_append (first second : List Char) : encode (first ++ second) = encode first ++ encode second :=
  List.flatMap_append

theorem encode_concat (before : List Char) (last : Char) :
    encode (before ++ [last]) = encode before ++ String.utf8EncodeChar last := by
  rw [encode, List.flatMap_append, List.flatMap_singleton, encode]

theorem utf8_encode_eq (text : List Char) : text.utf8Encode = ⟨(encode text).toArray⟩ := by
  rw [List.utf8Encode]
  exact ByteArray.ext List.data_toByteArray

private theorem split_after_encode (text : List Char) :
    splitAfter (· == 10) (encode text) = (splitAfter (· == '\n') text).map encode := by
  induction text with
  | nil => rfl
  | cons c rest ih =>
    rw [encode_cons]
    by_cases feed : c = '\n'
    · subst feed
      have itself : String.utf8EncodeChar '\n' = [10] := rfl
      rw [itself, List.singleton_append, splitAfter, if_pos (by decide), ih, splitAfter,
        if_pos (by decide)]
      rfl
    · have plain : ¬ (c == '\n') = true := by simpa using feed
      rw [split_after_plain (String.utf8EncodeChar_ne_nil) (encode_plain feed), ih, splitAfter, if_neg plain]
      cases splitAfter (· == '\n') rest with
      | nil => simp [encode]
      | cons piece pieces => simp [encode]

private theorem complete_pieces_encode (pieces : List (List Char)) :
    completePieces (· == 10) (pieces.map encode) = (completePieces (· == '\n') pieces).map encode := by
  rw [completePieces, completePieces, List.filter_map]
  congr 1
  apply List.filter_congr
  intro piece _
  rcases List.eq_nil_or_concat piece with rfl | ⟨before, c, rfl⟩
  · rfl
  · have last : (encode (before ++ [c])).getLast? = (String.utf8EncodeChar c).getLast? := by
      rw [encode_concat]
      exact List.getLast?_append_of_ne_nil _ (String.utf8EncodeChar_ne_nil)
    rw [Function.comp_apply, List.concat_eq_append, last, List.getLast?_concat]
    by_cases feed : c = '\n'
    · subst feed
      rfl
    · rw [List.getLast?_eq_some_getLast (String.utf8EncodeChar_ne_nil), Option.any_some, Option.any_some,
        encode_plain feed _ (List.getLast_mem _)]
      exact (beq_eq_false_iff_ne.mpr feed).symm

private theorem of_byte_lines_encode (pieces : List (List Char)) (failure : Option String) :
    Source.ofByteLines (pieces.map encode) failure = { lines := pieces.map dropReturn, failure } := by
  induction pieces with
  | nil => rfl
  | cons piece pieces ih =>
    have decoded : String.fromUTF8? ⟨(encode piece).toArray⟩ = some (String.ofList piece) := by
      rw [← utf8_encode_eq, String.fromUTF8?, dif_pos ⟨piece, rfl⟩]
      rfl
    simp only [List.map_cons, Source.ofByteLines, decoded, ih, String.toList_ofList]

/-- A text that is read as bytes has the lines of the text. If reading fails after them, the last
one is lost unless it is complete. -/
theorem of_bytes_of_text (text : String) (failure : Option String) :
    Source.ofBytes text.toUTF8.data.toList failure =
      { lines := match failure with
          | none => Source.textLines text.toList
          | some _ => (completePieces (· == '\n') (splitAfter (· == '\n') text.toList)).map dropReturn
        failure } := by
  have bytes : text.toUTF8.data.toList = encode text.toList := by
    have whole : text.toUTF8 = text.toList.utf8Encode := String.utf8Encode_toList.symm
    rw [whole, List.utf8Encode, List.toList_data_toByteArray, encode]
  cases failure with
  | none => simp only [Source.ofBytes, bytes, split_after_encode, of_byte_lines_encode, Source.textLines]
  | some reason =>
    simp only [Source.ofBytes, bytes, split_after_encode, complete_pieces_encode, of_byte_lines_encode]

/-! ## Bytes that are texts -/

section Decoded

variable {bytes : List UInt8} {line : String}

private theorem eq_encode_of_decoded (decoded : String.fromUTF8? ⟨bytes.toArray⟩ = some line) :
    bytes = encode line.toList := by
  rw [String.fromUTF8?] at decoded
  split at decoded
  · next valid =>
    cases decoded
    have whole : (String.fromUTF8 ⟨bytes.toArray⟩ valid).toList.utf8Encode = ⟨bytes.toArray⟩ :=
      String.utf8Encode_toList
    have same := congrArg (fun b => b.data.toList) whole
    rw [List.utf8Encode, List.toList_data_toByteArray] at same
    exact same.symm
  · cases decoded

/-- What is cut after the bytes of line feeds is cut after line feeds. -/
theorem decoded_inner (decoded : String.fromUTF8? ⟨bytes.toArray⟩ = some line)
    (inner : ∀ byte ∈ bytes.dropLast, (byte == 10) = false) : '\n' ∉ line.toList.dropLast := by
  intro feed
  have shape := eq_encode_of_decoded decoded
  rcases List.eq_nil_or_concat line.toList with none | ⟨before, last, whole⟩
  · rw [none] at feed
    cases feed
  · rw [whole, List.concat_eq_append] at feed shape
    rw [List.dropLast_concat] at feed
    have split : bytes = encode before ++ String.utf8EncodeChar last := shape.trans (encode_concat before last)
    have inside : (10 : UInt8) ∈ encode before := List.mem_flatMap.mpr ⟨'\n', feed, List.mem_singleton.mpr rfl⟩
    have early : (10 : UInt8) ∈ bytes.dropLast := by
      rw [split, List.dropLast_append_of_ne_nil (String.utf8EncodeChar_ne_nil)]
      exact List.mem_append_left _ inside
    exact Bool.noConfusion (inner 10 early)

theorem decoded_ends (decoded : String.fromUTF8? ⟨bytes.toArray⟩ = some line)
    (ends : bytes.getLast? = some 10) : line.toList.getLast? = some '\n' := by
  have shape := eq_encode_of_decoded decoded
  rcases List.eq_nil_or_concat line.toList with none | ⟨before, last, whole⟩
  · rw [shape, none] at ends
    cases ends
  · rw [shape, whole, List.concat_eq_append, encode_concat,
      List.getLast?_append_of_ne_nil _ (String.utf8EncodeChar_ne_nil)] at ends
    rw [whole, List.concat_eq_append, List.getLast?_concat]
    by_contra plain
    have apart := encode_plain (fun feed => plain (congrArg some feed)) 10 (List.mem_of_getLast? ends)
    exact Bool.noConfusion apart

end Decoded

end TypeDescription
