import Mathlib.Data.List.Infix
import TypeDescription.Proofs.Merging

/-!
Looking up what was written. A path is written into the first plain AVM of each conjunction on its
way, and looked up in all structured terms of it, the first that has the whole path winning. The two
agree all the same: what is written is found again, nothing that was found is lost, and a path that
runs neither above nor below the one written leads where it led before.
-/

namespace TypeDescription

/-- Neither path leads through the end of the other. -/
def Path.Apart (p q : Path) : Prop := ¬ p <+: q ∧ ¬ q <+: p

/-- Paths that are apart and begin alike go on apart. -/
theorem Path.Apart.tail {name : String} {rest more : Path} (apart : Path.Apart (name :: rest) (name :: more)) :
    Path.Apart rest more :=
  ⟨fun below => apart.1 (List.cons_prefix_cons.mpr ⟨rfl, below⟩),
    fun above => apart.2 (List.cons_prefix_cons.mpr ⟨rfl, above⟩)⟩

theorem Path.Apart.ne_nil {rest more : Path} (apart : Path.Apart rest more) : more ≠ [] :=
  fun none => apart.2 (none ▸ List.nil_prefix)

/-- There is at most one AVM or list, and it is a plain AVM. -/
structure Conjunction.HasOnePlain (c : Conjunction) : Prop where
  one : c.avms.length ≤ 1
  plain : ∀ t ∈ c, t.avm? ≠ none → ∃ a, t = .avm a

/-- Every conjunction that the path leads through, its end apart, has at most one AVM or list, which is
a plain AVM. -/
def Conjunction.StraightTo (c : Conjunction) (path : Path) : Prop :=
  ∀ above value, above <+: path → above ≠ path → c.get? above = some value → value.HasOnePlain

/-- Every conjunction strictly above the last feature of a path has at most one AVM or list, which is
a plain AVM. -/
def Avm.StraightTo (a : Avm) (path : Path) : Prop :=
  ∀ above value, above <+: path → above ≠ path → a.get? above = some value → value.HasOnePlain

/-- Below its first feature a straight path is straight. -/
theorem Avm.StraightTo.below {a : Avm} {name : String} {rest : Path} {inner : Conjunction}
    (straight : a.StraightTo (name :: rest)) (here : a.entries.lookup name = some inner) :
    inner.StraightTo rest := by
  intro above value prior differs leads
  refine straight (name :: above) value (List.cons_prefix_cons.mpr ⟨rfl, prior⟩)
    (fun same => differs (List.cons.inj same).2) ?_
  rw [get?, here]
  exact leads

/-! ## Writing into one AVM -/

namespace Avm

variable {a : Avm} {name : String} {change : Conjunction → Conjunction} {rest : Path} {value : Conjunction}

theorem get_update (a : Avm) (name : String) (change : Conjunction → Conjunction) (key : String)
    (rest : Path) :
    (a.update name change).get? (key :: rest) =
      if key = name then (change ((a.entries.lookup key).getD [])).get? rest
      else a.get? (key :: rest) := by
  have entries : (a.update name change).entries = a.entries.update name change := rfl
  rw [get?, entries, lookup_update]
  split <;> rfl

/-- A path below a value is reached through its feature. -/
theorem contains_update (leads : ∀ c, (change c).contains rest) :
    (a.update name change).contains (name :: rest) := by
  rw [contains, get_update, if_pos rfl]
  exact leads _

/-- A change that loses no path of a value loses none of the AVM. -/
theorem contains_update_of_contains (keeps : ∀ c path, c.contains path → (change c).contains path)
    (path : Path) (leads : a.contains path) : (a.update name change).contains path := by
  cases path with
  | nil => cases leads
  | cons key rest =>
    rw [contains, get_update]
    split
    · rw [contains_cons] at leads
      cases held : a.entries.lookup key with
      | none => simp [held] at leads
      | some old =>
        rw [held] at leads
        exact keeps old rest leads
    · exact leads

/-- A change below a feature is not seen from a path that leads elsewhere. -/
theorem get_update_of_apart {other : Path} (apart : Path.Apart (name :: rest) other)
    (keeps : ∀ c more, Path.Apart rest more → (change c).get? more = c.get? more) :
    (a.update name change).get? other = a.get? other := by
  cases other with
  | nil => exact absurd rfl apart.ne_nil
  | cons key more =>
    rw [get_update]
    split
    · next same =>
      subst same
      obtain ⟨next, last, rfl⟩ := List.exists_cons_of_ne_nil apart.tail.ne_nil
      rw [keeps _ _ apart.tail, get?]
      cases a.entries.lookup key <;> rfl
    · rfl

/-- Where a path led nowhere, it leads to what the change makes of no value. -/
theorem get_update_of_none (none : a.get? (name :: rest) = none)
    (changed : ∀ c : Conjunction, c = [] ∨ c.get? rest = Option.none → (change c).get? rest = some value) :
    (a.update name change).get? (name :: rest) = some value := by
  rw [get_update, if_pos rfl]
  rw [get?] at none
  cases held : a.entries.lookup name with
  | none => exact changed [] (.inl rfl)
  | some old =>
    rw [held] at none
    exact changed old (.inr none)

/-- Where a path led to a value, it leads to what the change makes of it. -/
theorem get_update_of_some {after : Conjunction} (found : a.get? (name :: rest) = some value)
    (changed : ∀ c : Conjunction, a.entries.lookup name = some c → c.get? rest = some value →
      (change c).get? rest = some after) :
    (a.update name change).get? (name :: rest) = some after := by
  rw [get_update, if_pos rfl]
  rw [get?] at found
  cases held : a.entries.lookup name with
  | none =>
    rw [held] at found
    cases found
  | some old =>
    rw [held] at found
    exact changed old held found

end Avm

/-! ## Writing into a conjunction -/

namespace Conjunction

/-- Either there is no plain AVM, or there is a first one. -/
theorem first_avm_cases (c : Conjunction) :
    (∀ a, Term.avm a ∉ c) ∨ ∃ before a after, c = before ++ .avm a :: after ∧ ∀ b, Term.avm b ∉ before := by
  induction c with
  | nil => exact .inl fun _ => List.not_mem_nil
  | cons t rest ih =>
    by_cases plain : ∃ a, t = .avm a
    · obtain ⟨a, rfl⟩ := plain
      exact .inr ⟨[], a, rest, rfl, fun _ => List.not_mem_nil⟩
    · have other (a : Avm) : Term.avm a ≠ t := fun same => plain ⟨a, same.symm⟩
      rcases ih with none | ⟨before, a, after, rfl, none⟩
      · exact .inl fun a member => (List.mem_cons.mp member).elim (other a) (none a)
      · exact .inr ⟨t :: before, a, after, rfl,
          fun b member => (List.mem_cons.mp member).elim (other b) (none b)⟩

/-- Where there is no plain AVM, one is added. -/
theorem update_avm_new {c : Conjunction} (none : ∀ a, Term.avm a ∉ c) (change : Avm → Avm) :
    c.updateAvm change = c ++ [.avm (change .empty)] := by
  have added := update_avm_of_none none [] change
  rwa [List.append_nil] at added

/-- The first plain AVM is changed. -/
theorem update_avm_first {before : Conjunction} (none : ∀ b, Term.avm b ∉ before) (a : Avm)
    (after : Conjunction) (change : Avm → Avm) :
    updateAvm (before ++ .avm a :: after) change = before ++ .avm (change a) :: after := by
  rw [update_avm_of_none none, updateAvm]

theorem avms_append (c d : Conjunction) : avms (c ++ d) = c.avms ++ d.avms :=
  List.filterMap_append

theorem avms_avm_cons (a : Avm) (c : Conjunction) : avms (.avm a :: c) = a :: c.avms := rfl

/-- A path is looked up in the AVMs one after the other. -/
theorem get_cons (c : Conjunction) (name : String) (rest : Path) :
    c.get? (name :: rest) = c.avms.findSome? fun a => a.get? (name :: rest) := by
  rw [get?]
  rfl

theorem get_append (c d : Conjunction) (name : String) (rest : Path) :
    get? (c ++ d) (name :: rest) = (c.get? (name :: rest)).or (d.get? (name :: rest)) := by
  rw [get_cons, avms_append, List.findSome?_append, ← get_cons, ← get_cons]

theorem get_eq_none {c : Conjunction} {path : Path} (nowhere : Conjunction.contains c path = false) :
    c.get? path = none := by
  rwa [contains, Option.isSome_eq_false_iff, Option.isNone_iff_eq_none] at nowhere

theorem contains_avm_cons (a : Avm) (c : Conjunction) (name : String) (rest : Path) :
    contains (.avm a :: c) (name :: rest) = (a.contains (name :: rest) || c.contains (name :: rest)) := by
  rw [contains_cons, contains_cons, avms_avm_cons, List.any_cons]

/-- The AVM that is written into is one of those in which paths are looked up. If it is new, it is the
last of them and has led nowhere. -/
theorem exists_written_avm (c : Conjunction) :
    ∃ (before : List Avm) (a : Avm) (after : List Avm), (c.HasOnePlain → before = [] ∧ after = []) ∧ ∀ name rest,
      c.get? (name :: rest) = (before ++ a :: after).findSome? (fun b => b.get? (name :: rest)) ∧
        ∀ change, (c.updateAvm change).get? (name :: rest) =
          (before ++ change a :: after).findSome? fun b => b.get? (name :: rest) := by
  rcases first_avm_cases c with none | ⟨before, a, after, rfl, none⟩
  · refine ⟨c.avms, .empty, [], fun only => ⟨?_, rfl⟩, fun name rest => ⟨?_, fun change => ?_⟩⟩
    · refine List.filterMap_eq_nil_iff.mpr fun t member => ?_
      by_contra structured
      obtain ⟨a, rfl⟩ := only.plain t member structured
      exact none a member
    · have nowhere : Avm.empty.get? (name :: rest) = Option.none := rfl
      rw [get_cons, List.findSome?_append, List.findSome?_singleton, nowhere, Option.or_none]
    · rw [update_avm_new none, get_cons, avms_append]
      rfl
  · have looked (b : Avm) (name : String) (rest : Path) :
        get? (before ++ .avm b :: after) (name :: rest) =
          (avms before ++ b :: avms after).findSome? fun b => b.get? (name :: rest) := by
      rw [get_cons, avms_append, avms_avm_cons]
    refine ⟨avms before, a, avms after, fun only => ?_, fun name rest => ⟨looked a name rest, fun change => ?_⟩⟩
    · have one := only.one
      rw [avms_append, avms_avm_cons, List.length_append, List.length_cons] at one
      exact ⟨List.eq_nil_of_length_eq_zero (by omega), List.eq_nil_of_length_eq_zero (by omega)⟩
    · rw [update_avm_first none, looked]

/-- What is written can be reached. -/
theorem contains_set (path : Path) (value c : Conjunction) : (c.set path value).contains path := by
  induction path generalizing c with
  | nil => exact contains_nil _
  | cons name rest ih =>
    obtain ⟨before, a, after, -, looked⟩ := exists_written_avm c
    rw [contains, set, (looked name rest).2, List.isSome_findSome?, List.any_append, List.any_cons,
      ← Avm.contains, Avm.contains_update ih, Bool.true_or, Bool.or_true]

/-- Writing loses no path. -/
theorem contains_set_of_contains (path : Path) (value c : Conjunction) (other : Path)
    (leads : c.contains other) : (c.set path value).contains other := by
  induction path generalizing c other with
  | nil => rw [set, contains_append, leads, Bool.true_or]
  | cons name rest ih =>
    cases other with
    | nil => exact contains_nil _
    | cons key more =>
      obtain ⟨before, a, after, -, looked⟩ := exists_written_avm c
      have kept (leads : a.contains (key :: more)) : (a.update name (set · rest value)).contains (key :: more) :=
        Avm.contains_update_of_contains ih _ leads
      rw [contains, (looked key more).1, List.isSome_findSome?, List.any_append, List.any_cons] at leads
      rw [contains, set, (looked key more).2, List.isSome_findSome?, List.any_append, List.any_cons]
      simp only [Bool.or_eq_true] at leads ⊢
      exact leads.imp_right fun inner => inner.imp_left kept

/-- A path that is apart from the one written leads where it led before. -/
theorem get_set_of_apart (path : Path) (value c : Conjunction) (other : Path) (apart : path.Apart other) :
    (c.set path value).get? other = c.get? other := by
  induction path generalizing c other with
  | nil => exact absurd List.nil_prefix apart.1
  | cons name rest ih =>
    obtain ⟨key, more, rfl⟩ := List.exists_cons_of_ne_nil apart.ne_nil
    obtain ⟨before, a, after, -, looked⟩ := exists_written_avm c
    rw [set, (looked key more).2, (looked key more).1, List.findSome?_append, List.findSome?_append,
      List.findSome?_cons, List.findSome?_cons, Avm.get_update_of_apart apart ih]

/-- What is written where nothing was is found as it is. -/
theorem get_set_of_none (path : Path) (value c : Conjunction) (none : c = [] ∨ c.get? path = none) :
    (c.set path value).get? path = some value := by
  induction path generalizing c with
  | nil =>
    rcases none with rfl | none
    · rfl
    · cases none
  | cons name rest ih =>
    have none : c.get? (name :: rest) = Option.none := none.elim (fun empty => empty ▸ rfl) id
    obtain ⟨before, a, after, -, looked⟩ := exists_written_avm c
    rw [(looked name rest).1, List.findSome?_eq_none_iff] at none
    have passed : before.findSome? (fun b => b.get? (name :: rest)) = Option.none :=
      List.findSome?_eq_none_iff.mpr fun b member => none b (by simp [member])
    rw [set, (looked name rest).2, List.findSome?_append, passed, Option.none_or, List.findSome?_cons,
      Avm.get_update_of_none (none a (by simp)) ih]

/-- What is written where something was is conjoined with it, if the path is straight. -/
theorem get_set_of_some (path : Path) (value : Conjunction) {c old : Conjunction}
    (found : c.get? path = some old) (straight : c.StraightTo path) :
    (c.set path value).get? path = some (old ++ value) := by
  induction path generalizing c with
  | nil =>
    cases found
    rfl
  | cons name rest ih =>
    obtain ⟨before, a, after, only, looked⟩ := exists_written_avm c
    obtain ⟨rfl, rfl⟩ := only (straight [] c List.nil_prefix (List.cons_ne_nil name rest).symm rfl)
    simp only [List.nil_append, List.findSome?_singleton] at looked
    rw [(looked name rest).1] at found
    rw [set, (looked name rest).2]
    have inside : a.StraightTo (name :: rest) := by
      intro above value' prior differs leads
      cases above with
      | nil => cases leads
      | cons key more => exact straight (key :: more) value' prior differs ((looked key more).1.trans leads)
    exact Avm.get_update_of_some found fun inner here below => ih below (inside.below here)

end Conjunction

/-! ## Writing at a path in text -/

namespace Avm

/-- What setting a path does to looking up: the path leads somewhere, as does every path that did
before; what is neither above nor below stays; a new value is found as it is, and on a straight path
it is found after the old one. -/
theorem get_after_set (a : Avm) (text : String) (value : Conjunction) :
    let path := Path.ofText text
    let written := a.set path value
    written.contains path ∧
      (∀ other, a.contains (Path.ofText other) → written.contains (Path.ofText other)) ∧
      (∀ other, path.Apart (Path.ofText other) →
        written.get? (Path.ofText other) = a.get? (Path.ofText other)) ∧
      (a.get? path = none → written.get? path = some value) ∧
      ∀ old, a.get? path = some old → a.StraightTo path → written.get? path = some (old ++ value) := by
  intro path written
  obtain ⟨name, rest, shape⟩ := List.exists_cons_of_ne_nil (of_text_ne_nil text)
  have shape : path = name :: rest := shape
  have set_eq : written = a.update name fun old => Conjunction.set old rest value := by
    rw [show written = a.set path value from rfl, shape, set]
  rw [set_eq, shape]
  refine ⟨?_, fun other leads => ?_, fun other apart => ?_, fun none => ?_, fun old found straight => ?_⟩
  · exact contains_update (Conjunction.contains_set rest value)
  · exact contains_update_of_contains (Conjunction.contains_set_of_contains rest value) _ leads
  · exact get_update_of_apart apart (Conjunction.get_set_of_apart rest value)
  · exact get_update_of_none none (Conjunction.get_set_of_none rest value)
  · refine get_update_of_some found fun inner here below => ?_
    exact Conjunction.get_set_of_some rest value below (straight.below here)

/-- Beside a list, and past one: an old value is joined on a straight path, and a new one is found behind
the list, where the path is not straight. -/
theorem get_after_set_past_list :
    let list := ConsList.empty.push [.named "item"]
    let inner := Avm.ofPaths [(["B"], [.named "x"])]
    let a : Avm := ⟨some [("A", [.named "t", .avm inner]), ("L", [.cons list, .avm inner])], none⟩
    let again := a.set (Path.ofText "a.b") [.named "y"]
    let new := a.set (Path.ofText "l.c") [.named "z"]
    (a.contains (Path.ofText "l.first") ∧ again.contains (Path.ofText "l.first")) ∧
      ((Path.ofText "a.b").Apart (Path.ofText "l.first") ∧
        again.get? (Path.ofText "l.first") = some [.named "item"]) ∧
      (a.get? (Path.ofText "a.b") = some [.named "x"] ∧ a.StraightTo (Path.ofText "a.b") ∧
        again.get? (Path.ofText "a.b") = some [.named "x", .named "y"]) ∧
      a.get? (Path.ofText "l.c") = none ∧ new.get? (Path.ofText "l.c") = some [.named "z"] := by
  intro list inner a again new
  have below : Path.ofText "a.b" = ["A", "B"] := by decide
  have listed : Path.ofText "l.first" = ["L", "FIRST"] := by decide
  have apart : (Path.ofText "a.b").Apart (Path.ofText "l.first") := by
    rw [below, listed]
    exact ⟨by decide, by decide⟩
  have straight : a.StraightTo (Path.ofText "a.b") := by
    rw [below]
    intro above value prior differs leads
    have among : above ∈ [[], ["A"], ["A", "B"]] := (List.mem_inits above ["A", "B"]).mpr prior
    simp only [List.mem_cons, List.not_mem_nil, or_false] at among
    rcases among with rfl | rfl | rfl
    · cases leads
    · obtain rfl : [.named "t", .avm inner] = value := Option.some.inj leads
      exact ⟨Nat.le_refl 1, by simp [Term.named, Term.avm?]⟩
    · exact absurd rfl differs
  obtain ⟨-, kept, unmoved, -, joined⟩ := get_after_set a "a.b" [.named "y"]
  obtain ⟨-, -, -, found, -⟩ := get_after_set a "l.c" [.named "z"]
  have item : a.get? (Path.ofText "l.first") = some [.named "item"] := by
    rw [listed]
    rfl
  have old : a.get? (Path.ofText "a.b") = some [.named "x"] := by
    rw [below]
    rfl
  have none : a.get? (Path.ofText "l.c") = Option.none := by
    rw [show Path.ofText "l.c" = ["L", "C"] by decide]
    rfl
  have leads : a.contains (Path.ofText "l.first") := by
    rw [contains, item]
    rfl
  exact ⟨⟨leads, kept _ leads⟩, ⟨apart, (unmoved _ apart).trans item⟩,
    ⟨old, straight, joined _ old straight⟩, none, found none⟩

end Avm

end TypeDescription
