import TypeDescription.Proofs.NormalForm
import TypeDescription.Proofs.PathWrites

/-!
Dotted paths stand for nested AVMs. Writing at the end of a path goes into the AVMs that are there;
adding an AVM that has the path leaves it to normalising to merge the one into the others, level by
level. In a normal form without null AVMs both end alike, down to the order of the features.
-/

namespace TypeDescription

/-- No plain AVM inside is null. -/
def Conjunction.NoneNull (c : Conjunction) : Prop :=
  c.Throughout fun d => ∀ a, Term.avm a ∈ d → a.isNull = false

/-- No plain AVM in the values is null. -/
def Avm.NoneNull (a : Avm) : Prop := ∀ entry ∈ a.entries, Conjunction.NoneNull entry.2

/-! ## A single AVM -/

namespace Avm

/-- To merge an AVM that has one path is to add to the feature with which the path begins. -/
theorem merge_of_path (a : Avm) (name : String) (rest : Path) (value : Conjunction) :
    a.merge (ofPaths [(name :: rest, value)]) = a.update name (· ++ Conjunction.set [] rest value) := by
  have doc : (a.merge (ofPaths [(name :: rest, value)])).doc = a.doc := Option.or_none
  exact congrArg (fun doc => (⟨some (a.entries.update name (· ++ Conjunction.set [] rest value)), doc⟩ : Avm)) doc

/-- Two changes of a value with the same normal form give AVMs with the same normal form. -/
theorem normalize_update {a : Avm} {name : String} {change change' : Conjunction → Conjunction}
    (same : (change ((a.entries.lookup name).getD [])).normalize =
      (change' ((a.entries.lookup name).getD [])).normalize) :
    (a.update name change).normalize = (a.update name change').normalize := by
  have entries (entries : Features) (same : (change ((entries.lookup name).getD [])).normalize =
        (change' ((entries.lookup name).getD [])).normalize) :
      (entries.update name change).map (fun entry => (entry.1, entry.2.normalize)) =
        (entries.update name change').map fun entry => (entry.1, entry.2.normalize) := by
    induction entries with
    | nil => exact congrArg (fun value => [(name, value)]) same
    | cons entry rest ih =>
      obtain ⟨key, old⟩ := entry
      rw [Features.update, Features.update]
      split
      · next here =>
        subst here
        rw [List.lookup_cons_self, Option.getD_some] at same
        rw [List.map_cons, List.map_cons, same]
      · next differs =>
        have apart : (name == key) = false := by simpa using Ne.symm differs
        rw [List.lookup_cons, apart] at same
        rw [List.map_cons, List.map_cons, ih same]
  exact congrArg (fun entries : Features => (⟨some entries, a.doc⟩ : Avm)) (entries a.entries same)

end Avm

/-! ## Conjunctions -/

namespace Conjunction

/-- What holds throughout the values of an AVM holds throughout the value of a feature, also of one that
is not there. -/
theorem throughout_lookup {P : Conjunction → Prop} (empty : P []) {entries : Features}
    (all : ∀ entry ∈ entries, Throughout P entry.2) (name : String) :
    Throughout P ((entries.lookup name).getD []) := by
  cases found : entries.lookup name with
  | none =>
    rintro d (_ | ⟨member, -, -⟩)
    · exact empty
    · cases member
  | some value => exact all (name, value) (mem_of_lookup found)

theorem IsNormal.lookup {entries : Features} (normal : ∀ entry ∈ entries, IsNormal entry.2) (name : String) :
    IsNormal ((entries.lookup name).getD []) :=
  throughout_lookup (Nat.zero_le 1) normal name

theorem NoneNull.lookup {entries : Features} (some : ∀ entry ∈ entries, NoneNull entry.2) (name : String) :
    NoneNull ((entries.lookup name).getD []) :=
  throughout_lookup (fun _ inside => absurd inside List.not_mem_nil) some name

/-- Without plain AVMs there is nothing to merge. -/
theorem plain_avms_of_none {c : Conjunction} (none : ∀ a, Term.avm a ∉ c) : c.plainAvms = [] := by
  refine plain_avms_eq_nil_iff.mpr fun t member => Option.eq_none_iff_forall_ne_some.mpr fun a merges => ?_
  obtain ⟨rfl, -⟩ := mergeable_eq_some_iff.mp merges
  exact none a member

/-- Normalising where the first AVM is known. -/
theorem normalize_first {before : Conjunction} (none : ∀ b, Term.avm b ∉ before) {a : Avm}
    (some : a.isNull = false) (after : Conjunction) :
    normalize (before ++ .avm a :: after) =
      before.map (fun t => t.mapValues normalize) ++
        .avm (after.plainAvms.foldl Avm.merge a).normalize ::
          after.otherTerms.map fun t => t.mapValues normalize := by
  rw [normalize_eq, merge_avms_first (plain_avms_of_none none) some, List.map_append, List.map_cons]
  rfl

/-- In a normal form without null AVMs it makes no difference whether a value is written at the end of a
path or an AVM that has the path is added. -/
theorem normalize_set {path : Path} (nonempty : path ≠ []) (value : Conjunction) {c : Conjunction}
    (normal : c.IsNormal) (some : c.NoneNull) :
    (c.set path value).normalize = normalize (c ++ [.avm (Avm.ofPaths [(path, value)])]) := by
  induction path generalizing c with
  | nil => exact absurd rfl nonempty
  | cons name rest ih =>
    have below {old : Conjunction} (normal : old.IsNormal) (some : old.NoneNull) :
        (old.set rest value).normalize = normalize (old ++ set [] rest value) := by
      cases rest with
      | nil => rfl
      | cons next more => exact ih (List.cons_ne_nil next more) normal some
    rcases first_avm_cases c with none | ⟨before, a, after, rfl, none⟩
    · rw [set, update_avm_new none]
      rfl
    · obtain ⟨one, normal_values⟩ := throughout_iff.mp normal
      obtain ⟨plain, some_values⟩ := throughout_iff.mp some
      have member : a ∈ avms (before ++ .avm a :: after) := by simp [avms_append, avms_avm_cons]
      have isSome : a.isNull = false := plain a (by simp)
      -- The AVM is the only one that is merged, so the one that is added meets it alone.
      rw [plain_avms_append, plain_avms_cons isSome, List.length_append, List.length_cons] at one
      have alone : plainAvms after = [] := List.eq_nil_of_length_eq_zero (by omega)
      let added := Avm.ofPaths [(name :: rest, value)]
      have met : plainAvms (after ++ [.avm added]) = [added] := by
        rw [plain_avms_append, alone]
        rfl
      have others : otherTerms (after ++ [.avm added]) = after := by
        rw [otherTerms, List.filter_append, ← otherTerms, other_terms_eq_self alone]
        exact List.append_nil after
      have alike : (a.update name fun old => set old rest value).normalize = (a.merge added).normalize := by
        rw [Avm.merge_of_path]
        exact Avm.normalize_update
          (below (IsNormal.lookup (normal_values a member) name) (NoneNull.lookup (some_values a member) name))
      rw [set, update_avm_first none, normalize_first none rfl, List.append_assoc, List.cons_append,
        normalize_first none isSome, met, others, alone, other_terms_eq_self alone, List.foldl_nil, alike]
      rfl

end Conjunction

/-! ## Paths in text -/

/-- In a normal form without null AVMs, setting `F.p` is setting `F` to an AVM that has `p`. -/
theorem Avm.normalize_set_dotted {a : Avm} (normal : a.normalize = a) (some : a.NoneNull) {feature : String}
    (undotted : '.' ∉ feature.toList) (path : String) (value : Conjunction) :
    (a.set (Path.ofText (feature ++ "." ++ path)) value).normalize =
      (a.set (Path.ofText feature) [.avm (ofPaths [(Path.ofText path, value)])]).normalize := by
  rw [of_text_dotted undotted, of_text_undotted undotted]
  exact normalize_update (Conjunction.normalize_set (of_text_ne_nil path) value
    (Conjunction.IsNormal.lookup (normal_values normal) _) (Conjunction.NoneNull.lookup some _))

/-- A feature that holds a type, a list, an AVM with a docstring and a coreference: the dotted path goes into
the AVM in their midst, where the value meets another. -/
theorem Avm.normalize_set_dotted_between_terms :
    let inner : Avm := ⟨some [("G", [.named "x"])], some "doc"⟩
    let list := ConsList.empty.push [.named "item"]
    let a : Avm := ⟨some [("F", [.named "t", .cons list, .avm inner, .coreference "tag" none])], none⟩
    let value : Conjunction := [.named "y", .avm ⟨none, none⟩]
    (a.normalize = a ∧ a.NoneNull ∧ '.' ∉ "f".toList) ∧
      (a.set (Path.ofText ("f" ++ "." ++ "g")) value).normalize =
        (a.set (Path.ofText "f") [.avm (ofPaths [(Path.ofText "g", value)])]).normalize := by
  intro inner list a value
  have some : a.NoneNull := by
    have flat (name : String) : Conjunction.NoneNull [.named name] :=
      Conjunction.throughout_iff.mpr ⟨fun _ inside => by simp [Term.named] at inside, fun _ inside => nomatch inside⟩
    refine List.forall_mem_singleton.mpr (Conjunction.throughout_iff.mpr ⟨fun b inside => ?_, fun b inside => ?_⟩)
    · obtain rfl : b = inner := by simpa [Term.named] using inside
      rfl
    · have among : b ∈ [list.avm, inner] := inside
      simp only [List.mem_cons, List.not_mem_nil, or_false] at among
      rcases among with rfl | rfl
      · exact List.forall_mem_singleton.mpr (flat "item")
      · exact List.forall_mem_singleton.mpr (flat "x")
  have normal : a.normalize = a := rfl
  exact ⟨⟨normal, some, by decide⟩, normalize_set_dotted normal some (by decide) "g" value⟩

end TypeDescription
