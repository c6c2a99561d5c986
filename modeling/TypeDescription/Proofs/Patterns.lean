import Mathlib.Data.List.Basic
import TypeDescription.Token.Pattern

/-!
What regular expressions match. The answers of an expression are the matches of a relation that
knows nothing of their order. Where all matches agree on what a rule makes of them the relation is
enough; where they do not, a repetition of single characters gives its answers from the longest run
down to the shortest.
-/

namespace TypeDescription

namespace Pattern

/-- The expression matches the start of the text and leaves the rest of it. -/
inductive Takes : Pattern → List Char → List Char → Prop where
  | empty {s : List Char} : Takes .empty s s
  | one {admits : Char → Bool} {c : Char} {s : List Char} (admitted : admits c = true) :
    Takes (.one admits) (c :: s) s
  | both {first second : Pattern} {s middle rest : List Char} (before : Takes first s middle)
    (after : Takes second middle rest) : Takes (.both first second) s rest
  | first {first second : Pattern} {s rest : List Char} (taken : Takes first s rest) :
    Takes (.either first second) s rest
  | second {first second : Pattern} {s rest : List Char} (taken : Takes second s rest) :
    Takes (.either first second) s rest
  | done {turn : Pattern} {s : List Char} : Takes (.many turn) s s
  | turn {turn : Pattern} {s middle rest : List Char} (now : Takes turn s middle)
    (later : Takes (.many turn) middle rest) : Takes (.many turn) s rest
  | lineEnd {s : List Char} (ends : s.head?.all (· == '\n') = true) : Takes .lineEnd s s

theorem Takes.suffix {p : Pattern} {s rest : List Char} (takes : Takes p s rest) : rest <:+ s := by
  induction takes with
  | empty | done | lineEnd => exact List.suffix_rfl
  | one => exact List.suffix_cons ..
  | both before after ihBefore ihAfter => exact ihAfter.trans ihBefore
  | first taken ih | second taken ih => exact ih
  | turn now later ihNow ihLater => exact ihLater.trans ihNow

private theorem takes_of_mem_repeated {p : Pattern} {fuel : Nat} {s rest : List Char}
    (one : ∀ {s rest}, rest ∈ p.rests s → Takes p s rest) (member : rest ∈ repeated p.rests fuel s) :
    Takes (.many p) s rest := by
  induction fuel generalizing s with
  | zero =>
    obtain rfl := List.mem_singleton.mp member
    exact .done
  | succ fuel ih =>
    rw [repeated, List.mem_append, List.mem_flatMap, List.mem_singleton] at member
    rcases member with ⟨middle, now, later⟩ | rfl
    · by_cases same : middle = s
      · rw [if_pos same, List.mem_singleton] at later
        exact later ▸ .done
      · rw [if_neg same] at later
        exact .turn (one now) (ih later)
    · exact .done

theorem takes_of_mem {p : Pattern} {s rest : List Char} (member : rest ∈ p.rests s) :
    Takes p s rest := by
  induction p generalizing s rest with
  | empty =>
    obtain rfl := List.mem_singleton.mp member
    exact .empty
  | one admits =>
    cases s with
    | nil => cases member
    | cons c s =>
      rw [rests] at member
      split at member
      · next admitted =>
        obtain rfl := List.mem_singleton.mp member
        exact .one admitted
      · cases member
  | both first second ihFirst ihSecond =>
    obtain ⟨middle, before, after⟩ := List.mem_flatMap.mp member
    exact .both (ihFirst before) (ihSecond after)
  | either first second ihFirst ihSecond =>
    rcases List.mem_append.mp member with taken | taken
    · exact .first (ihFirst taken)
    · exact .second (ihSecond taken)
  | many turn ih => exact takes_of_mem_repeated ih member
  | lineEnd =>
    rw [rests] at member
    split at member
    · next ends =>
      obtain rfl := List.mem_singleton.mp member
      exact .lineEnd ends
    · cases member

/-- More turns than there are characters change nothing. -/
private theorem repeated_of_enough {p : Pattern} {n m : Nat} {s : List Char} (enough : s.length < n)
    (enough' : s.length < m) : repeated p.rests n s = repeated p.rests m s := by
  induction n generalizing m s with
  | zero => exact absurd enough (Nat.not_lt_zero _)
  | succ n ih =>
    obtain ⟨m, rfl⟩ := Nat.exists_eq_succ_of_ne_zero (Nat.ne_zero_of_lt enough')
    rw [repeated, repeated]
    refine congrArg (· ++ [s]) (List.flatMap_congr fun rest member => ?_)
    by_cases same : rest = s
    · rw [if_pos same, if_pos same]
    · have tail := (takes_of_mem member).suffix
      have shorter : rest.length < s.length :=
        Nat.lt_of_le_of_ne tail.length_le fun equal => same (tail.eq_of_length equal)
      rw [if_neg same, if_neg same]
      exact ih (by omega) (by omega)

/-- Another turn is preferred to none. -/
theorem rests_many (turn : Pattern) (s : List Char) :
    (many turn).rests s =
      (turn.rests s).flatMap (fun rest => if rest = s then [s] else (many turn).rests rest) ++ [s] := by
  rw [rests, repeated]
  refine congrArg (· ++ [s]) (List.flatMap_congr fun rest member => ?_)
  by_cases same : rest = s
  · rw [if_pos same, if_pos same]
  · have tail := (takes_of_mem member).suffix
    have shorter : rest.length < s.length :=
      Nat.lt_of_le_of_ne tail.length_le fun equal => same (tail.eq_of_length equal)
    rw [if_neg same, if_neg same, rests]
    exact repeated_of_enough shorter (Nat.lt_succ_self _)

theorem mem_of_takes {p : Pattern} {s rest : List Char} (takes : Takes p s rest) :
    rest ∈ p.rests s := by
  induction takes with
  | empty => exact List.mem_singleton_self _
  | one admitted =>
    rw [rests, if_pos admitted]
    exact List.mem_singleton_self _
  | both before after ihBefore ihAfter => exact List.mem_flatMap.mpr ⟨_, ihBefore, ihAfter⟩
  | first taken ih => exact List.mem_append_left _ ih
  | second taken ih => exact List.mem_append_right _ ih
  | done =>
    rw [rests_many]
    exact List.mem_append_right _ (List.mem_singleton_self _)
  | @turn turn s middle rest now later ihNow ihLater =>
    by_cases same : middle = s
    · exact same ▸ ihLater
    · rw [rests_many]
      refine List.mem_append_left _ (List.mem_flatMap.mpr ⟨middle, ihNow, ?_⟩)
      rwa [if_neg same]
  | lineEnd ends =>
    rw [rests, if_pos ends]
    exact List.mem_singleton_self _

/-- The answers of an expression are its matches. -/
theorem mem_rests_iff {p : Pattern} {s rest : List Char} : rest ∈ p.rests s ↔ Takes p s rest :=
  ⟨takes_of_mem, mem_of_takes⟩

/-- What every turn does, and what is kept when one thing is done after the other, every repetition
does. -/
theorem Takes.of_many {p : Pattern} {R : List Char → List Char → Prop} (refl : ∀ s, R s s)
    (trans : ∀ {s middle rest}, R s middle → R middle rest → R s rest)
    (turn : ∀ {s rest}, Takes p s rest → R s rest) {s rest : List Char} (takes : Takes (.many p) s rest) :
    R s rest := by
  generalize same : Pattern.many p = q at takes
  induction takes with
  | done => exact refl _
  | turn now later ihNow ihLater =>
    obtain rfl := Pattern.many.inj same
    exact trans (turn now) (ihLater rfl)
  | _ => cases same

theorem takes_one_iff {admits : Char → Bool} {s rest : List Char} :
    Takes (one admits) s rest ↔ ∃ c, s = c :: rest ∧ admits c = true := by
  constructor
  · rintro ⟨⟩
    exact ⟨_, rfl, ‹_›⟩
  · rintro ⟨c, rfl, admitted⟩
    exact .one admitted

theorem takes_many_one_iff {admits : Char → Bool} {s rest : List Char} :
    Takes (many (one admits)) s rest ↔ ∃ run, s = run ++ rest ∧ ∀ c ∈ run, admits c = true := by
  constructor
  · refine Takes.of_many (R := fun s rest => ∃ run, s = run ++ rest ∧ ∀ c ∈ run, admits c = true)
      (fun s => ⟨[], rfl, fun _ member => nomatch member⟩) ?_ fun taken => ?_
    · rintro s middle rest ⟨run, rfl, all⟩ ⟨run', rfl, all'⟩
      exact ⟨run ++ run', (List.append_assoc ..).symm, List.forall_mem_append.mpr ⟨all, all'⟩⟩
    · obtain ⟨c, rfl, admitted⟩ := takes_one_iff.mp taken
      exact ⟨[c], rfl, List.forall_mem_singleton.mpr admitted⟩
  · rintro ⟨run, rfl, all⟩
    induction run with
    | nil => exact .done
    | cons c run ih =>
      obtain ⟨admitted, all⟩ := List.forall_mem_cons.mp all
      exact .turn (.one admitted) (ih all)

/-! ## First answers -/

section First

variable {f : List Char → Option β}

/-- Where all answers agree, any of them is the first. -/
theorem find_some_of_unique {f : α → Option β} {l : List α} {answer : Option β}
    (sound : ∀ a ∈ l, ∀ b, f a = some b → answer = some b)
    (complete : ∀ b, answer = some b → ∃ a ∈ l, f a = some b) : l.findSome? f = answer := by
  cases found : l.findSome? f with
  | some b =>
    obtain ⟨a, member, here⟩ := List.exists_of_findSome?_eq_some found
    exact (sound a member b here).symm
  | none =>
    cases answer with
    | none => rfl
    | some b =>
      obtain ⟨a, member, here⟩ := complete b rfl
      rw [List.findSome?_eq_none_iff.mp found a member] at here
      cases here

theorem find_some_congr {f g : α → Option β} {l : List α} (same : ∀ a ∈ l, f a = g a) :
    l.findSome? f = l.findSome? g := by
  induction l with
  | nil => rfl
  | cons a l ih =>
    obtain ⟨here, later⟩ := List.forall_mem_cons.mp same
    rw [List.findSome?_cons, List.findSome?_cons, here, ih later]

private theorem find_some_flat_map {f : β → Option γ} {g : α → List β} {l : List α} :
    (l.flatMap g).findSome? f = l.findSome? fun a => (g a).findSome? f := by
  induction l with
  | nil => rfl
  | cons a l ih =>
    rw [List.flatMap_cons, List.findSome?_append, ih, List.findSome?_cons]
    cases (g a).findSome? f <;> rfl

@[simp] theorem find_empty (s : List Char) : (empty.rests s).findSome? f = f s := by
  rw [rests, List.findSome?_singleton]

@[simp] theorem find_one_nil (admits : Char → Bool) : ((one admits).rests []).findSome? f = none := rfl

@[simp] theorem find_one_cons (admits : Char → Bool) (c : Char) (s : List Char) :
    ((one admits).rests (c :: s)).findSome? f = if admits c then f s else none := by
  rw [rests]
  split
  · exact List.findSome?_singleton
  · rfl

@[simp] theorem find_both (first second : Pattern) (s : List Char) :
    ((both first second).rests s).findSome? f =
      (first.rests s).findSome? fun middle => (second.rests middle).findSome? f := by
  rw [rests, find_some_flat_map]

@[simp] theorem find_either (first second : Pattern) (s : List Char) :
    ((either first second).rests s).findSome? f =
      ((first.rests s).findSome? f).or ((second.rests s).findSome? f) := by
  rw [rests, List.findSome?_append]

/-- A text that is given is there or not. -/
theorem find_literal (spelled s : List Char) :
    ((literal spelled).rests s).findSome? f = (spelled.isPrefixOf? s).bind f := by
  induction spelled generalizing s with
  | nil => exact find_empty s
  | cons c spelled ih =>
    rw [literal, List.foldr_cons, find_both, exactly]
    cases s with
    | nil => rfl
    | cons d s =>
      rw [find_one_cons, List.isPrefixOf?]
      by_cases same : c = d
      · subst same
        simpa [literal] using ih s
      · simp [same, Ne.symm same]

/-! ## Runs of one class -/

variable {admits : Char → Bool}

theorem rests_many_one_cons {c : Char} (s : List Char) :
    (many (one admits)).rests (c :: s) =
      (if admits c then (many (one admits)).rests s else []) ++ [c :: s] := by
  rw [rests_many, rests]
  by_cases admitted : admits c = true
  · have apart : ¬ s = c :: s := fun same => List.cons_ne_self c s same.symm
    rw [if_pos admitted, if_pos admitted, List.flatMap_singleton, if_neg apart]
  · rw [if_neg admitted, if_neg admitted, List.flatMap_nil]

/-- The preferred run is the longest. -/
theorem head_rests_many_one (s : List Char) :
    ((many (one admits)).rests s).head? = some (s.dropWhile admits) := by
  induction s with
  | nil => rfl
  | cons c s ih =>
    rw [rests_many_one_cons]
    by_cases admitted : admits c = true
    · rw [if_pos admitted, List.dropWhile_cons_of_pos admitted, List.head?_append, ih]
      rfl
    · rw [if_neg admitted, List.dropWhile_cons_of_neg admitted]
      rfl

private theorem longest_succ (answer : Nat → Option α) (n : Nat) :
    Lexeme.longest answer (n + 1) = (Lexeme.longest (fun k => answer (k + 1)) n).or (answer 1) := by
  induction n with
  | zero =>
    simp only [Lexeme.longest]
    cases answer 1 <;> rfl
  | succ n ih =>
    rw [Lexeme.longest, ih]
    simp only [Lexeme.longest]
    cases answer (n + 1 + 1) <;> rfl

/-- Of the runs after which something is found the longest counts. -/
theorem find_many_one (s : List Char) :
    ((many (one admits)).rests s).findSome? f =
      (Lexeme.longest (fun k => f (s.drop k)) (s.takeWhile admits).length).or (f s) := by
  induction s with
  | nil => exact List.findSome?_singleton
  | cons c s ih =>
    rw [rests_many_one_cons]
    by_cases admitted : admits c = true
    · rw [if_pos admitted, List.takeWhile_cons_of_pos admitted, List.findSome?_append, ih,
        List.findSome?_singleton, List.length_cons, longest_succ]
      rfl
    · rw [if_neg admitted, List.takeWhile_cons_of_neg admitted]
      exact List.findSome?_singleton

/-- A run of at least one character. -/
theorem find_at_least_once_one (s : List Char) :
    ((atLeastOnce (one admits)).rests s).findSome? f =
      Lexeme.longest (fun k => f (s.drop k)) (s.takeWhile admits).length := by
  rw [atLeastOnce, find_both]
  cases s with
  | nil => rfl
  | cons c s =>
    rw [find_one_cons]
    by_cases admitted : admits c = true
    · rw [if_pos admitted, find_many_one, List.takeWhile_cons_of_pos admitted, List.length_cons,
        longest_succ]
      rfl
    · rw [if_neg admitted, List.takeWhile_cons_of_neg admitted]
      rfl

/-- A run up to a character that cannot be part of it ends only there. -/
theorem find_run_then {c : Char} (apart : admits c = false) (s : List Char) :
    ((both (many (one admits)) (exactly c)).rests s).findSome? f =
      ((exactly c).rests (s.dropWhile admits)).findSome? f := by
  rw [find_both]
  induction s with
  | nil => exact List.findSome?_singleton
  | cons d s ih =>
    rw [rests_many_one_cons, List.findSome?_append, List.findSome?_singleton]
    by_cases admitted : admits d = true
    · have other : ¬ (d == c) = true := fun same => by
        rw [eq_of_beq same, apart] at admitted
        cases admitted
      rw [if_pos admitted, ih, List.dropWhile_cons_of_pos admitted, exactly, find_one_cons, if_neg other,
        Option.or_none]
    · rw [if_neg admitted, List.dropWhile_cons_of_neg admitted]
      rfl

end First

end Pattern

end TypeDescription
