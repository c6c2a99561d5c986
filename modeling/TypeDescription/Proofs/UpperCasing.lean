import TypeDescription.Path
import TypeDescription.Proofs.Admission

/-!
What upper-casing yields. The characters in the images of the two tables are in neither table
themselves, and none of them is white space or a break character. Both facts are read off the
tables once, with whole ranges compared where they lie apart; they make a feature name that was put
into upper case a symbol that is its own upper case.
-/

namespace TypeDescription

namespace Unicode.UpperCase

/-! ## The tables -/

/-- The numbers from `low` to `high` lie outside a range. -/
private def apart (low high : Nat) (range : Nat × Nat) : Bool :=
  Nat.blt high range.1 || Nat.blt range.2 low

private theorem outside_of_apart {low high n : Nat} {range : Nat × Nat}
    (separate : apart low high range = true) (above : low ≤ n) (below : n ≤ high) :
    ¬ (range.1 ≤ n ∧ n ≤ range.2) := by
  rw [apart, Bool.or_eq_true, Nat.blt_eq, Nat.blt_eq] at separate
  omega

/-- White space, break characters, and the numbers that are no characters. -/
private def forbidden : List (Nat × Nat) :=
  whiteSpaceRanges ++ Lexeme.breakChars.map (fun c => (c.toNat, c.toNat)) ++ [(0xD800, 0xDFFF)]

private def Run.lastTarget (run : Run) : Nat := run.target + (run.last - run.first)

private def Run.targets (run : Run) : List Nat :=
  (List.range ((run.last - run.first) / run.step + 1)).map fun k => run.target + run.step * k

/-- A character that is its own upper case, and may stand in a symbol. -/
private structure Settled (image : Nat) : Prop where
  fixed : codes image = [image]
  bounded : image < 0x110000
  allowed : ∀ range ∈ forbidden, ¬ (range.1 ≤ image ∧ image ≤ range.2)

private theorem runs_bounded :
    (runs.all fun run => Nat.blt run.lastTarget 0x110000 &&
      forbidden.all (apart run.target run.lastTarget)) = true := by
  decide +kernel

private theorem runs_apart_from_runs :
    (runs.all fun run => runs.all fun other =>
      apart run.target run.lastTarget (other.first, other.last) ||
        run.targets.all fun image => (other.image? image).isNone) = true := by
  decide +kernel

private theorem runs_apart_from_expansions :
    (runs.all fun run => expansions.all fun (code, _) =>
      apart run.target run.lastTarget (code, code) ||
        run.targets.all fun image => !Nat.beq code image) = true := by
  decide +kernel

private theorem expansions_settled :
    (expansions.all fun (_, images) => !images.isEmpty && images.all fun image =>
      Nat.blt image 0x110000 && forbidden.all (apart image image) &&
        (runs.all fun run =>
          apart image image (run.first, run.last) || (run.image? image).isNone) &&
        (expansions.lookup image).isNone) = true := by
  decide +kernel

private theorem codes_of_absent {code : Nat} (noRun : ∀ run ∈ runs, run.image? code = none)
    (noExpansion : expansions.lookup code = none) : codes code = [code] := by
  rw [codes, List.findSome?_eq_none_iff.mpr noRun, noExpansion]
  rfl

private theorem image_of_outside {run : Run} {code : Nat}
    (outside : ¬ (run.first ≤ code ∧ code ≤ run.last)) : run.image? code = none := by
  rw [Run.image?, if_neg]
  exact fun inside => outside ⟨inside.1, inside.2.1⟩

private theorem mem_targets {run : Run} {code image : Nat} (found : run.image? code = some image) :
    image ∈ run.targets ∧ run.target ≤ image ∧ image ≤ run.lastTarget := by
  rw [Run.image?] at found
  split at found
  · next inside =>
    obtain ⟨low, high, divides⟩ := inside
    cases found
    refine ⟨List.mem_map.mpr ⟨(code - run.first) / run.step, ?_, ?_⟩, Nat.le_add_right _ _, ?_⟩
    · have bound : (code - run.first) / run.step ≤ (run.last - run.first) / run.step :=
        Nat.div_le_div_right (Nat.sub_le_sub_right high _)
      exact List.mem_range.mpr (Nat.lt_succ_of_le bound)
    · rw [Nat.mul_div_cancel' (Nat.dvd_of_mod_eq_zero divides)]
    · rw [Run.lastTarget]
      omega
  · cases found

private theorem settled_of_run {run : Run} {code image : Nat} (member : run ∈ runs)
    (found : run.image? code = some image) : Settled image := by
  obtain ⟨target, low, high⟩ := mem_targets found
  have bounds := List.all_eq_true.mp runs_bounded run member
  rw [Bool.and_eq_true, Nat.blt_eq] at bounds
  refine ⟨codes_of_absent (fun other member' => ?_) ?_, by omega, fun range inside => ?_⟩
  · have separate := List.all_eq_true.mp (List.all_eq_true.mp runs_apart_from_runs run member) other
      member'
    rcases Bool.or_eq_true_iff.mp separate with separate | separate
    · exact image_of_outside (outside_of_apart separate low high)
    · exact Option.isNone_iff_eq_none.mp (List.all_eq_true.mp separate image target)
  · rw [List.lookup_eq_none_iff]
    intro entry member'
    have separate := List.all_eq_true.mp
      (List.all_eq_true.mp runs_apart_from_expansions run member) entry member'
    have differ : entry.1 ≠ image := by
      rcases Bool.or_eq_true_iff.mp separate with separate | separate
      · rintro rfl
        exact outside_of_apart separate low high ⟨Nat.le_refl _, Nat.le_refl _⟩
      · rintro rfl
        have other := List.all_eq_true.mp separate _ target
        rw [Nat.beq_refl] at other
        cases other
    exact bne_iff_ne.mpr differ.symm
  · exact outside_of_apart (List.all_eq_true.mp bounds.2 range inside) low high

private theorem mem_of_lookup {code : Nat} {images : List Nat}
    (found : expansions.lookup code = some images) : (code, images) ∈ expansions := by
  obtain ⟨before, after, shape, -⟩ := List.lookup_eq_some_iff.mp found
  rw [shape]
  exact List.mem_append_right _ (List.mem_cons_self ..)

private theorem settled_of_expansion {code image : Nat} {images : List Nat}
    (found : expansions.lookup code = some images) (inside : image ∈ images) : Settled image := by
  have member := mem_of_lookup found
  have checked := List.all_eq_true.mp expansions_settled _ member
  rw [Bool.and_eq_true] at checked
  have checked := List.all_eq_true.mp checked.2 image inside
  simp only [Bool.and_eq_true, Nat.blt_eq, Option.isNone_iff_eq_none] at checked
  obtain ⟨⟨⟨bounded, allowed⟩, noRun⟩, noExpansion⟩ := checked
  refine ⟨codes_of_absent (fun run member' => ?_) noExpansion, bounded, fun range inside' => ?_⟩
  · rcases Bool.or_eq_true_iff.mp (List.all_eq_true.mp noRun run member') with separate | absent
    · exact image_of_outside (outside_of_apart separate (Nat.le_refl _) (Nat.le_refl _))
    · exact Option.isNone_iff_eq_none.mp absent
  · exact outside_of_apart (List.all_eq_true.mp allowed range inside') (Nat.le_refl _) (Nat.le_refl _)

/-- A number is its own upper case, or its upper case is settled. -/
private theorem codes_cases (code : Nat) :
    codes code = [code] ∨ codes code ≠ [] ∧ ∀ image ∈ codes code, Settled image := by
  cases found : runs.findSome? (·.image? code) with
  | some image =>
    obtain ⟨run, member, at'⟩ := List.exists_of_findSome?_eq_some found
    have shape : codes code = [image] := by rw [codes, found]
    refine .inr ⟨by rw [shape]; exact List.cons_ne_nil _ _, fun image' inside => ?_⟩
    rw [shape] at inside
    obtain rfl := List.mem_singleton.mp inside
    exact settled_of_run member at'
  | none =>
    cases expanded : expansions.lookup code with
    | none => exact .inl (by rw [codes, found, expanded]; rfl)
    | some images =>
      have shape : codes code = images := by rw [codes, found, expanded]; rfl
      have checked := List.all_eq_true.mp expansions_settled _ (mem_of_lookup expanded)
      rw [Bool.and_eq_true] at checked
      rw [shape]
      refine .inr ⟨?_, fun image inside => settled_of_expansion expanded inside⟩
      rintro rfl
      exact absurd checked.1 (by simp)

private theorem to_nat_of_settled {image : Nat} (settled : Settled image) :
    (Char.ofNat image).toNat = image := by
  have allowed := settled.allowed (0xD800, 0xDFFF) (by simp [forbidden])
  have bounded := settled.bounded
  have valid : image.isValidChar := by
    simp only [Nat.isValidChar]
    omega
  rw [Char.ofNat, dif_pos valid]
  rfl

private theorem symbol_char_of_settled {image : Nat} (settled : Settled image) :
    Lexeme.isSymbolChar (Char.ofNat image) = true := by
  have code := to_nat_of_settled settled
  rw [Lexeme.isSymbolChar, Bool.and_eq_true, Bool.not_eq_true', Bool.not_eq_true']
  constructor
  · rw [isWhiteSpace, within, List.any_eq_false]
    intro range inside white
    rw [code, Bool.and_eq_true, decide_eq_true_iff, decide_eq_true_iff] at white
    exact settled.allowed range (List.mem_append_left _ (List.mem_append_left _ inside)) white
  · rw [← Bool.not_eq_true, List.contains_iff_mem]
    intro broken
    have range : (image, image) ∈ Lexeme.breakChars.map fun c => (c.toNat, c.toNat) :=
      List.mem_map.mpr ⟨Char.ofNat image, broken, by rw [code]⟩
    exact settled.allowed (image, image) (List.mem_append_left _ (List.mem_append_right _ range))
      ⟨Nat.le_refl _, Nat.le_refl _⟩

end Unicode.UpperCase

/-! ## Characters -/

namespace Unicode

open UpperCase

private theorem upper_case_cases (c : Char) :
    upperCase c = [c] ∨ upperCase c ≠ [] ∧ ∀ d ∈ upperCase c, ∃ image, Settled image ∧ d = Char.ofNat image := by
  rcases codes_cases c.toNat with same | ⟨nonempty, settled⟩
  · refine .inl ?_
    rw [upperCase, same, List.map_singleton, Char.ofNat_toNat]
  · refine .inr ⟨by simpa [upperCase] using nonempty, fun d member => ?_⟩
    obtain ⟨image, inside, rfl⟩ := List.mem_map.mp member
    exact ⟨image, settled image inside, rfl⟩

theorem upper_case_ne_nil (c : Char) : upperCase c ≠ [] := by
  rcases upper_case_cases c with same | ⟨nonempty, -⟩
  · rw [same]
    exact List.cons_ne_nil _ _
  · exact nonempty

/-- The characters of an upper case are their own upper case. -/
theorem upper_case_of_mem {c d : Char} (member : d ∈ upperCase c) : upperCase d = [d] := by
  rcases upper_case_cases c with same | ⟨-, settled⟩
  · rw [same] at member
    obtain rfl := List.mem_singleton.mp member
    exact same
  · obtain ⟨image, settled, rfl⟩ := settled d member
    rw [upperCase, to_nat_of_settled settled, settled.fixed, List.map_singleton]

theorem symbol_char_of_mem_upper_case {c d : Char} (symbol : Lexeme.isSymbolChar c = true)
    (member : d ∈ upperCase c) : Lexeme.isSymbolChar d = true := by
  rcases upper_case_cases c with same | ⟨-, settled⟩
  · rw [same] at member
    obtain rfl := List.mem_singleton.mp member
    exact symbol
  · obtain ⟨image, settled, rfl⟩ := settled d member
    exact symbol_char_of_settled settled

/-- No character at which a symbol breaks comes from another one. -/
theorem eq_of_break_mem_upper_case {c d : Char} (breaks : Lexeme.isSymbolChar d = false) (member : d ∈ upperCase c) :
    d = c := by
  rcases upper_case_cases c with same | ⟨-, settled⟩
  · rw [same] at member
    exact List.mem_singleton.mp member
  · obtain ⟨image, settled, rfl⟩ := settled d member
    rw [symbol_char_of_settled settled] at breaks
    cases breaks

end Unicode

/-! ## Texts -/

theorem upperCase_upperCase (text : String) : upperCase (upperCase text) = upperCase text := by
  have fixed {chars : List Char} (each : ∀ d ∈ chars, Unicode.upperCase d = [d]) :
      chars.flatMap Unicode.upperCase = chars := by
    induction chars with
    | nil => rfl
    | cons d chars ih =>
      rw [List.flatMap_cons, each d (List.mem_cons_self ..),
        ih fun e member => each e (List.mem_cons_of_mem _ member)]
      rfl
  rw [upperCase, upperCase, String.toList_ofList, fixed]
  intro d member
  obtain ⟨c, -, inside⟩ := List.mem_flatMap.mp member
  exact Unicode.upper_case_of_mem inside

/-- Upper-casing makes no dots. -/
theorem undotted_upper_case {text : String} (undotted : '.' ∉ text.toList) : '.' ∉ (upperCase text).toList := by
  rw [upperCase, String.toList_ofList]
  intro member
  obtain ⟨c, inside, image⟩ := List.mem_flatMap.mp member
  have same := Unicode.eq_of_break_mem_upper_case (by decide) image
  exact undotted (same ▸ inside)

/-- The upper case of a symbol is a symbol. -/
theorem is_symbol_upper_case {text : String} (symbol : Lexeme.IsSymbol text.toList) :
    Lexeme.IsSymbol (upperCase text).toList := by
  rw [upperCase, String.toList_ofList]
  constructor
  · obtain ⟨c, rest, shape⟩ := List.exists_cons_of_ne_nil symbol.nonempty
    rw [shape, List.flatMap_cons]
    exact List.append_ne_nil_of_left_ne_nil (Unicode.upper_case_ne_nil c) _
  · intro d member
    obtain ⟨c, inside, image⟩ := List.mem_flatMap.mp member
    exact Unicode.symbol_char_of_mem_upper_case (symbol.all c inside) image

/-- The marker of a side is in lower case. -/
theorem not_marked_upper_case (text : String) : ¬ Lexeme.Marked (upperCase text).toList := by
  rintro ⟨side, starts⟩
  have low : ∃ d ∈ (upperCase text).toList, Unicode.upperCase d ≠ [d] := by
    cases side
    · exact ⟨'p', starts.subset (by decide), by decide⟩
    · exact ⟨'s', starts.subset (by decide), by decide⟩
  obtain ⟨d, member, changed⟩ := low
  rw [upperCase, String.toList_ofList] at member
  obtain ⟨c, -, inside⟩ := List.mem_flatMap.mp member
  exact changed (Unicode.upper_case_of_mem inside)

end TypeDescription
