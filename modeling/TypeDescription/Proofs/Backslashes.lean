import TypeDescription.Proofs.Tilings

/-!
Which characters a backslash covers. A search that passes over a backslash together with the
character after it stops at the first closing delimiter that stands behind an even number of
backslashes; and it finds none just when all of them stand behind an odd number.
-/

namespace TypeDescription

/-- The number of backslashes right before the character with this index. -/
def backslashesBefore (s : List Char) (i : Nat) : Nat :=
  ((s.take i).reverse.takeWhile (· == '\\')).length

/-- Of the backslashes right before a character the last one covers it if their number is odd. -/
def CoveredAt (s : List Char) (i : Nat) : Prop := backslashesBefore s i % 2 = 1

instance (s : List Char) (i : Nat) : Decidable (CoveredAt s i) :=
  inferInstanceAs (Decidable (backslashesBefore s i % 2 = 1))

/-- The text ends where the closing delimiter stands for the first time without being covered. -/
structure ClosesFirst (closer s text after : List Char) : Prop where
  shape : s = text ++ closer ++ after
  uncovered : ¬ CoveredAt s text.length
  earlier : ∀ i < text.length, closer <+: s.drop i → CoveredAt s i

/-- Every closing delimiter is covered. -/
def NeverCloses (closer s : List Char) : Prop := ∀ i, closer <+: s.drop i → CoveredAt s i

section Covered

theorem not_covered_zero (s : List Char) : ¬ CoveredAt s 0 := by
  simp [CoveredAt, backslashesBefore]

private theorem backslashes_before_cons (c : Char) (s : List Char) (i : Nat) :
    backslashesBefore (c :: s) (i + 1) =
      backslashesBefore s i + if c = '\\' ∧ backslashesBefore s i = (s.take i).length then 1 else 0 := by
  unfold backslashesBefore
  rw [List.take_succ_cons, List.reverse_cons, List.takeWhile_append, List.length_reverse]
  by_cases full : ((s.take i).reverse.takeWhile (· == '\\')).length = (s.take i).length
  · rw [if_pos full]
    by_cases backslash : c = '\\'
    · rw [if_pos ⟨backslash, full⟩, full, List.length_append, List.length_reverse, backslash]
      rfl
    · rw [if_neg fun both => backslash both.1, full, List.length_append, List.length_reverse,
        List.takeWhile_cons_of_neg (by simpa using backslash)]
      rfl
  · rw [if_neg full, if_neg fun both => full both.2, Nat.add_zero]

private theorem backslashes_before_le (s : List Char) (i : Nat) :
    backslashesBefore s i ≤ (s.take i).length := by
  have bound := (List.takeWhile_prefix (l := (s.take i).reverse) (· == '\\')).length_le
  rwa [List.length_reverse] at bound

/-- Another character in front covers nothing and changes nothing. -/
theorem covered_cons {c : Char} (plain : c ≠ '\\') (s : List Char) (i : Nat) :
    CoveredAt (c :: s) (i + 1) ↔ CoveredAt s i := by
  rw [CoveredAt, CoveredAt, backslashes_before_cons, if_neg (by simp [plain]), Nat.add_zero]

theorem covered_one (c : Char) (s : List Char) : CoveredAt ('\\' :: c :: s) 1 := by
  simp [CoveredAt, backslashesBefore]

/-- A backslash in front covers the next character and no other. -/
theorem covered_escape (c : Char) (s : List Char) (i : Nat) :
    CoveredAt ('\\' :: c :: s) (i + 2) ↔ CoveredAt s i := by
  have bound := backslashes_before_le s i
  unfold CoveredAt
  rw [backslashes_before_cons, backslashes_before_cons, List.take_succ_cons, List.length_cons]
  by_cases full : c = '\\' ∧ backslashesBefore s i = (s.take i).length
  · rw [if_pos full, if_pos ⟨rfl, by omega⟩]
    omega
  · rw [if_neg full, Nat.add_zero, if_neg (by omega), Nat.add_zero]

end Covered

section Search

variable {closer s text after : List Char}

/-- The closing delimiter starts behind the text. -/
theorem starts_of_shape (shape : s = text ++ closer ++ after) : closer <+: s.drop text.length := by
  rw [shape, List.append_assoc, List.drop_left]
  exact List.prefix_append ..

/-- Two places cannot both be the first. -/
theorem ClosesFirst.unique {text' after' : List Char} (closes : ClosesFirst closer s text after)
    (closes' : ClosesFirst closer s text' after') : text = text' ∧ after = after' := by
  have starts := starts_of_shape closes.shape
  have starts' := starts_of_shape closes'.shape
  have lengths : text.length = text'.length := by
    rcases Nat.lt_trichotomy text.length text'.length with before | same | behind
    · exact absurd (closes'.earlier _ before starts) closes.uncovered
    · exact same
    · exact absurd (closes.earlier _ behind starts') closes'.uncovered
  have whole := closes.shape.symm.trans closes'.shape
  rw [List.append_assoc, List.append_assoc] at whole
  obtain ⟨rfl, rest⟩ := List.append_inj whole lengths
  exact ⟨rfl, List.append_cancel_left rest⟩

variable {c : Char}

theorem ClosesFirst.cons (plain : c ≠ '\\') (apart : ¬ closer <+: c :: s)
    (closes : ClosesFirst closer s text after) : ClosesFirst closer (c :: s) (c :: text) after where
  shape := by rw [closes.shape, List.cons_append, List.cons_append]
  uncovered := by
    rw [List.length_cons, covered_cons plain]
    exact closes.uncovered
  earlier := by
    rintro (_ | i) before starts
    · exact absurd starts apart
    · exact (covered_cons plain s i).mpr (closes.earlier i (Nat.lt_of_succ_lt_succ before) starts)

theorem NeverCloses.cons (plain : c ≠ '\\') (apart : ¬ closer <+: c :: s)
    (never : NeverCloses closer s) : NeverCloses closer (c :: s) := by
  rintro (_ | i) starts
  · exact absurd starts apart
  · exact (covered_cons plain s i).mpr (never i starts)

variable (plain : '\\' ∉ closer) (nonempty : closer ≠ [])

include plain nonempty

private theorem no_backslash_starts (s : List Char) : ¬ closer <+: '\\' :: s := by
  obtain ⟨c, rest, rfl⟩ := List.exists_cons_of_ne_nil nonempty
  intro starts
  obtain ⟨rfl, -⟩ := List.cons_prefix_cons.mp starts
  exact plain (List.mem_cons_self ..)

theorem ClosesFirst.escape (closes : ClosesFirst closer s text after) :
    ClosesFirst closer ('\\' :: c :: s) ('\\' :: c :: text) after where
  shape := by simp [closes.shape]
  uncovered := by
    rw [List.length_cons, List.length_cons, covered_escape]
    exact closes.uncovered
  earlier := by
    rintro (_ | _ | i) before starts
    · exact absurd starts (no_backslash_starts plain nonempty _)
    · exact covered_one c s
    · refine (covered_escape c s i).mpr (closes.earlier i ?_ starts)
      rw [List.length_cons, List.length_cons] at before
      omega

theorem NeverCloses.escape (never : NeverCloses closer s) : NeverCloses closer ('\\' :: c :: s) := by
  rintro (_ | _ | i) starts
  · exact absurd starts (no_backslash_starts plain nonempty _)
  · exact covered_one c s
  · exact (covered_escape c s i).mpr (never i starts)

/-- What a search finds, and what it means that it finds nothing. -/
theorem up_to_closer_spec (s : List Char) :
    match upToCloser closer s with
    | some (text, after) => ClosesFirst closer s text after
    | none => NeverCloses closer s := by
  fun_induction upToCloser closer s with
  | case1 =>
    intro i starts
    rw [List.drop_nil] at starts
    exact absurd (List.prefix_nil.mp starts) nonempty
  | case2 =>
    rintro (_ | i) starts
    · exact absurd starts (no_backslash_starts plain nonempty _)
    · rw [List.drop_succ_cons, List.drop_nil] at starts
      exact absurd (List.prefix_nil.mp starts) nonempty
  | case3 c rest ih =>
    cases found : upToCloser closer rest with
    | none =>
      rw [found] at ih
      exact NeverCloses.escape plain nonempty ih
    | some answer =>
      rw [found] at ih
      exact ClosesFirst.escape plain nonempty ih
  | case4 c rest noEnd noCover after starts =>
    have shape := List.isPrefixOf?_eq_some_iff_append_eq.mp starts
    exact ⟨shape.symm, not_covered_zero _, fun i before => absurd before (Nat.not_lt_zero i)⟩
  | case5 c rest noEnd noCover apart ih =>
    have plain' := ne_escape noEnd noCover
    have apart' := not_prefix_of_absent apart
    cases found : upToCloser closer rest with
    | none =>
      rw [found] at ih
      exact NeverCloses.cons plain' apart' ih
    | some answer =>
      rw [found] at ih
      exact ClosesFirst.cons plain' apart' ih

/-- A search stops at the first closing delimiter that is not covered. -/
theorem up_to_closer_eq_some_iff :
    upToCloser closer s = some (text, after) ↔ ClosesFirst closer s text after := by
  have spec := up_to_closer_spec plain nonempty s
  constructor
  · intro found
    rwa [found] at spec
  · intro closes
    cases found : upToCloser closer s with
    | none =>
      rw [found] at spec
      exact absurd (spec text.length (starts_of_shape closes.shape)) closes.uncovered
    | some answer =>
      rw [found] at spec
      obtain ⟨same, same'⟩ := spec.unique closes
      rw [← same, ← same']

/-- A search finds nothing if every closing delimiter is covered. -/
theorem up_to_closer_eq_none_iff : upToCloser closer s = none ↔ NeverCloses closer s := by
  have spec := up_to_closer_spec plain nonempty s
  constructor
  · intro absent
    rwa [absent] at spec
  · intro never
    cases found : upToCloser closer s with
    | none => rfl
    | some answer =>
      rw [found] at spec
      exact absurd (never answer.1.length (starts_of_shape spec.shape)) spec.uncovered

end Search

/-- On a line it makes no difference that a string or a regular expression does not take a line
feed behind a backslash. -/
theorem up_to_eq_up_to_closer {closer : Char} {s : List Char} (inner : '\n' ∉ s.dropLast) :
    Lexeme.upTo closer s = upToCloser [closer] s := by
  fun_induction Lexeme.upTo closer s with
  | case1 | case2 => rfl
  | case3 rest =>
    have last : rest = [] := by
      by_contra more
      have inside := inner_of_suffix ['\\'] inner
      rw [List.dropLast_cons_of_ne_nil more] at inside
      exact inside (List.mem_cons_self ..)
    subst last
    rfl
  | case4 c rest plain ih => rw [upToCloser, ih (inner_of_suffix ['\\', c] inner)]
  | case5 rest noEnd noCover =>
    rw [up_to_closer_cons (ne_escape noEnd noCover)]
    simp [List.isPrefixOf?]
  | case6 c rest noEnd noCover other ih =>
    rw [up_to_closer_cons (ne_escape noEnd noCover), ih (inner_of_suffix [c] inner)]
    simp [List.isPrefixOf?, Ne.symm other]

end TypeDescription
