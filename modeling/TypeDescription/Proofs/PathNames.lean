import TypeDescription.Path

/-!
Paths in text. A text is cut at its dots and the pieces are put into upper case. A path whose names
are in upper case already, and have no dots, is what its own text denotes.
-/

namespace TypeDescription

/-- A name as a text gives it to a path: without dots, and in upper case. -/
structure IsPathName (name : String) : Prop where
  undotted : '.' ∉ name.toList
  upper : upperCase name = name

/-! ## From a text -/

theorem of_text_ne_nil (text : String) : Path.ofText text ≠ [] := by
  rw [Path.ofText, Ne, List.map_eq_nil_iff]
  exact List.splitOn_ne_nil '.' text.toList

theorem of_text_undotted {text : String} (undotted : '.' ∉ text.toList) :
    Path.ofText text = [upperCase text] := by
  rw [Path.ofText, List.splitOn_eq_singleton undotted, List.map_singleton, String.ofList_toList]

theorem of_text_dotted {first : String} (undotted : '.' ∉ first.toList) (rest : String) :
    Path.ofText (first ++ "." ++ rest) = upperCase first :: Path.ofText rest := by
  have split : (first ++ "." ++ rest).toList = first.toList ++ '.' :: rest.toList := by simp
  rw [Path.ofText, split, List.splitOn_append_cons_self_of_not_mem undotted, List.map_cons,
    String.ofList_toList, Path.ofText]

/-- The pieces of a text that is cut at a character do not have that character. -/
theorem not_mem_of_mem_split_on {cut : Char} {text piece : List Char} (member : piece ∈ text.splitOn cut) :
    cut ∉ piece := by
  induction text generalizing piece with
  | nil =>
    obtain rfl : piece = [] := by simpa using member
    exact List.not_mem_nil
  | cons c rest ih =>
    rw [List.splitOn_cons_eq_if_modifyHead] at member
    split at member
    · rcases List.mem_cons.mp member with rfl | later
      · exact List.not_mem_nil
      · exact ih later
    · next differs =>
      obtain ⟨first, pieces, shape⟩ := List.exists_cons_of_ne_nil (List.splitOn_ne_nil cut rest)
      rw [shape, List.modifyHead_cons] at member
      rcases List.mem_cons.mp member with rfl | later
      · have apart : cut ≠ c := fun same => differs (by simp [same])
        exact List.not_mem_cons_of_ne_of_not_mem apart (ih (shape ▸ List.mem_cons_self))
      · exact ih (shape ▸ List.mem_cons_of_mem _ later)

/-! ## To a text and back -/

/-- The text of a path is cut into its names again, if there are no dots in them. -/
theorem split_text {path : Path} (some : path ≠ []) (noDot : ∀ name ∈ path, '.' ∉ name.toList) :
    path.text.toList.splitOn '.' = path.map String.toList := by
  have names : ∀ name ∈ path.map String.toList, '.' ∉ name := by
    intro name member
    obtain ⟨name', inside, rfl⟩ := List.mem_map.mp member
    exact noDot name' inside
  rw [Path.text, String.toList_intercalate]
  exact List.splitOn_intercalate '.' names (by simpa using some)

/-- A path of such names is what its text denotes. -/
theorem Path.of_text_text {path : Path} (some : path ≠ []) (names : ∀ name ∈ path, IsPathName name) :
    Path.ofText path.text = path := by
  rw [Path.ofText, split_text some fun name member => (names name member).undotted, List.map_map]
  refine (List.map_congr_left fun name member => ?_).trans (List.map_id path)
  rw [Function.comp_apply, String.ofList_toList, (names name member).upper, id]

end TypeDescription
