import TypeDescription.Term.Lists
import TypeDescription.Proofs.PathNames

/-!
The terms of a tree with their places. A place is the path from the top to a conjunction; plain
AVMs are no more than their values and are left out. Writing a value at the end of a path adds the
terms of the value at this path and moves no other term, however the AVMs on the way are merged.
-/

namespace TypeDescription

mutual

/-- The terms inside a term that stands at a path, and the term itself, with their paths. -/
def Term.placed (here : Path) : Term → List (Path × Term)
  | .avm ⟨features, _⟩ => placedInMap here features
  | .cons ⟨⟨features, doc⟩, lastPath, length, terminated⟩ =>
    (here, .cons ⟨⟨features, doc⟩, lastPath, length, terminated⟩) :: placedInMap here features
  | .diff ⟨⟨features, doc⟩, length⟩ =>
    (here, .diff ⟨⟨features, doc⟩, length⟩) :: placedInMap here features
  | t => [(here, t)]

/-- The terms inside the features of an AVM. -/
def placedInMap (here : Path) : Option (List (String × List Term)) → List (Path × Term)
  | some entries => placedInEntries here entries
  | none => []

/-- The terms inside entries. -/
def placedInEntries (here : Path) : List (String × List Term) → List (Path × Term)
  | [] => []
  | (name, value) :: rest => placedInTerms (here ++ [name]) value ++ placedInEntries here rest

/-- The terms inside the terms of a conjunction. -/
def placedInTerms (here : Path) : List Term → List (Path × Term)
  | [] => []
  | t :: rest => t.placed here ++ placedInTerms here rest

end

/-- The terms of a conjunction and all that is inside them, with their paths. -/
def Conjunction.placed (c : Conjunction) : List (Path × Term) := placedInTerms [] c

section Functions

variable (here : Path)

@[simp] theorem placed_in_terms (c : Conjunction) :
    placedInTerms here c = c.flatMap (Term.placed here) := by
  induction c with
  | nil => rfl
  | cons t rest ih => rw [placedInTerms, ih, List.flatMap_cons]

theorem placed_in_entries (entries : Features) :
    placedInEntries here entries =
      entries.flatMap fun (name, value) => value.flatMap (Term.placed (here ++ [name])) := by
  induction entries with
  | nil => rfl
  | cons entry rest ih =>
    obtain ⟨name, value⟩ := entry
    rw [placedInEntries, ih, List.flatMap_cons, placed_in_terms]

@[simp] theorem placed_avm (a : Avm) : (Term.avm a).placed here = placedInEntries here a.entries := by
  obtain ⟨_ | entries, doc⟩ := a <;> rfl

@[simp] theorem placed_cons (l : ConsList) :
    (Term.cons l).placed here = (here, .cons l) :: placedInEntries here l.avm.entries := by
  obtain ⟨⟨_ | entries, doc⟩, lastPath, length, terminated⟩ := l <;> rfl

@[simp] theorem placed_diff (l : DiffList) :
    (Term.diff l).placed here = (here, .diff l) :: placedInEntries here l.avm.entries := by
  obtain ⟨⟨_ | entries, doc⟩, length⟩ := l <;> rfl

end Functions

/-! ## Writing -/

/-- A feature that is not there is added at the end. -/
theorem update_absent {entries : Features} {name : String} (absent : name ∉ entries.map (·.1))
    (change : Conjunction → Conjunction) :
    entries.update name change = entries ++ [(name, change [])] := by
  induction entries with
  | nil => rfl
  | cons entry rest ih =>
    obtain ⟨key, value⟩ := entry
    rw [List.map_cons, List.mem_cons, not_or] at absent
    rw [Features.update, if_neg (Ne.symm absent.1), ih absent.2, List.cons_append]

/-- Features with names that differ are added one after the other. -/
theorem foldl_update_of_nodup (change : String × Conjunction → Conjunction → Conjunction) {entries : Features}
    (first : ∀ entry ∈ entries, change entry [] = entry.2) (nodup : (entries.map (·.1)).Nodup) :
    entries.foldl (fun (all : Features) entry => all.update entry.1 (change entry)) [] = entries := by
  have inside (before : Features) (apart : ((before ++ entries).map (·.1)).Nodup) :
      entries.foldl (fun (all : Features) entry => all.update entry.1 (change entry)) before =
        before ++ entries := by
    clear nodup
    induction entries generalizing before with
    | nil => exact (List.append_nil before).symm
    | cons entry rest ih =>
      obtain ⟨here, later⟩ := List.forall_mem_cons.mp first
      have absent : entry.1 ∉ before.map (·.1) := by
        intro member
        rw [List.map_append, List.map_cons] at apart
        exact (List.nodup_append.mp apart).2.2 entry.1 member entry.1 (List.mem_cons_self ..) rfl
      have next := ih later (before ++ [entry]) (by simpa using apart)
      rw [List.foldl_cons, update_absent absent, here]
      simpa using next
  exact inside [] nodup

/-- Paths that begin with different names make one feature each. -/
theorem of_paths_of_nodup {entries : Features} (route : String × Conjunction → Path × Conjunction)
    (first : ∀ entry ∈ entries, Conjunction.set [] (route entry).1 (route entry).2 = entry.2)
    (nodup : (entries.map (·.1)).Nodup) :
    Avm.ofPaths (entries.map fun entry => (entry.1 :: (route entry).1, (route entry).2)) =
      { features := some entries, doc := none } := by
  let holding (entries : Features) : Avm := { features := some entries, doc := none }
  have added := foldl_update_of_nodup (fun entry old => old.set (route entry).1 (route entry).2) first nodup
  have written (all : Features) (entry : String × Conjunction) :
      (holding all).set (entry.1 :: (route entry).1) (route entry).2 =
        holding (all.update entry.1 fun old => old.set (route entry).1 (route entry).2) := rfl
  have empty : Avm.empty = holding [] := rfl
  rw [Avm.ofPaths, List.foldl_map, empty, List.foldl_hom holding written, added]

/-- Terms that are no plain AVMs are passed over. -/
theorem update_avm_of_none {before : Conjunction} (none : ∀ a, Term.avm a ∉ before) (after : Conjunction)
    (change : Avm → Avm) :
    Conjunction.updateAvm (before ++ after) change = before ++ Conjunction.updateAvm after change := by
  induction before with
  | nil => rfl
  | cons t rest ih =>
    have other : ∀ a, t ≠ .avm a := fun a same => none a (same ▸ List.mem_cons_self ..)
    have later := ih fun a member => none a (List.mem_cons_of_mem _ member)
    rw [List.cons_append, Conjunction.updateAvm.eq_def]
    split
    · next same => cases same
    · next a more same => exact absurd (List.cons.inj same).1 (other a)
    · next u more _ same =>
      obtain ⟨rfl, rfl⟩ := List.cons.inj same
      rw [later, List.cons_append]

section Writing

variable {here : Path} {extra : List (Path × Term)}

/-- What is gathered from each value by itself: a change of one value that only adds to what is
gathered there adds it to the whole. -/
theorem flat_map_update (gather : String → Conjunction → List α) {added : List α}
    {entries : Features} {name : String} {change : Conjunction → Conjunction}
    (none : gather name [] = [])
    (adds : ∀ c, (gather name (change c)).Perm (gather name c ++ added)) :
    ((entries.update name change).flatMap fun (key, value) => gather key value).Perm
      ((entries.flatMap fun (key, value) => gather key value) ++ added) := by
  induction entries with
  | nil =>
    have first := adds []
    rw [none] at first
    simpa [Features.update] using first
  | cons entry rest ih =>
    obtain ⟨key, value⟩ := entry
    rw [Features.update]
    split
    · next same =>
      subst same
      simp only [List.flatMap_cons]
      calc (gather key (change value) ++ _).Perm _ := (adds value).append_right _
        _ = _ := List.append_assoc ..
        List.Perm _ _ := List.perm_append_comm.append_left _
        _ = _ := (List.append_assoc ..).symm
    · simp only [List.flatMap_cons, List.append_assoc]
      exact ih.append_left _

/-- A change of one value that only adds terms makes an AVM that has these terms besides. -/
theorem placed_update {entries : Features} {name : String} {change : Conjunction → Conjunction}
    (adds : ∀ c : Conjunction, ((change c).flatMap (Term.placed (here ++ [name]))).Perm
      (c.flatMap (Term.placed (here ++ [name])) ++ extra)) :
    (placedInEntries here (entries.update name change)).Perm
      (placedInEntries here entries ++ extra) := by
  simp only [placed_in_entries]
  let gather (key : String) (value : Conjunction) := value.flatMap (Term.placed (here ++ [key]))
  exact flat_map_update gather rfl adds

/-- So does a change of the first plain AVM of a conjunction. -/
theorem placed_update_avm {c : Conjunction} {change : Avm → Avm}
    (adds : ∀ a : Avm, (placedInEntries here (change a).entries).Perm
      (placedInEntries here a.entries ++ extra)) :
    ((c.updateAvm change).flatMap (Term.placed here)).Perm (c.flatMap (Term.placed here) ++ extra) := by
  fun_induction Conjunction.updateAvm c change with
  | case1 =>
    have first := adds .empty
    have none : placedInEntries here Avm.empty.entries = [] := rfl
    rw [none] at first
    simpa using first
  | case2 a rest =>
    simp only [List.flatMap_cons, placed_avm]
    calc (placedInEntries here (change a).entries ++ _).Perm _ := (adds a).append_right _
      _ = _ := List.append_assoc ..
      List.Perm _ _ := List.perm_append_comm.append_left _
      _ = _ := (List.append_assoc ..).symm
  | case3 t rest other ih =>
    simp only [List.flatMap_cons, List.append_assoc]
    exact ih.append_left _

/-- Writing a value at the end of a path adds the terms of the value there. -/
theorem placed_set (c : Conjunction) (path : Path) (value : Conjunction) :
    ((c.set path value).flatMap (Term.placed here)).Perm
      (c.flatMap (Term.placed here) ++ value.flatMap (Term.placed (here ++ path))) := by
  induction path generalizing c here with
  | nil => rw [Conjunction.set, List.flatMap_append, List.append_nil]
  | cons name rest ih =>
    rw [Conjunction.set, List.append_cons]
    exact placed_update_avm fun a => placed_update fun old => ih old

theorem placed_set_avm (here : Path) (a : Avm) {path : Path} (some : path ≠ [])
    (value : Conjunction) :
    (placedInEntries here (a.set path value).entries).Perm
      (placedInEntries here a.entries ++ value.flatMap (Term.placed (here ++ path))) := by
  cases path with
  | nil => exact absurd rfl some
  | cons name rest =>
    rw [Avm.set, List.append_cons]
    exact placed_update fun old => placed_set old rest value

/-- Writing several values adds the terms of each. -/
theorem placed_foldl_set {a : Avm} {writes : List (Path × Conjunction)}
    (some : ∀ write ∈ writes, write.1 ≠ []) :
    (placedInEntries here (writes.foldl (fun a (path, value) => a.set path value) a).entries).Perm
      (placedInEntries here a.entries ++
        writes.flatMap fun (path, value) => value.flatMap (Term.placed (here ++ path))) := by
  induction writes generalizing a with
  | nil => rw [List.flatMap_nil, List.append_nil, List.foldl_nil]
  | cons write rest ih =>
    obtain ⟨path, value⟩ := write
    obtain ⟨first, later⟩ := List.forall_mem_cons.mp some
    rw [List.foldl_cons, List.flatMap_cons, ← List.append_assoc]
    exact (ih later).trans ((placed_set_avm here a first value).append_right _)

end Writing

/-! ## Ends of lists -/

/-- Nothing but this type name, with a docstring or without. -/
def IsLone (name : String) (c : Conjunction) : Prop := ∃ doc, c = [.type .name name doc]

theorem list_end_open_iff {c : Conjunction} : ListEnd.of c = .open ↔ IsLone openListType c := by
  have differ : emptyListType ≠ openListType := by decide
  fun_cases ListEnd.of c <;> simp_all [IsLone]

theorem list_end_closed_iff {c : Conjunction} : ListEnd.of c = .closed ↔ IsLone emptyListType c := by
  fun_cases ListEnd.of c <;> simp_all [IsLone]

theorem list_end_value_iff {c : Conjunction} :
    ListEnd.of c = .value ↔ ¬ IsLone emptyListType c ∧ ¬ IsLone openListType c := by
  rw [← list_end_open_iff, ← list_end_closed_iff]
  cases ListEnd.of c <;> simp

/-! ## Structured terms -/

section Structures

variable (here : Path)

theorem placed_of_paths {writes : List (Path × Conjunction)} (some : ∀ write ∈ writes, write.1 ≠ []) :
    (placedInEntries here (Avm.ofPaths writes).entries).Perm
      (writes.flatMap fun (path, value) => value.flatMap (Term.placed (here ++ path))) :=
  placed_foldl_set some

/-- The items of a chain, from an index on. -/
def placedItems (index : Nat) (items : List Conjunction) : List (Path × Term) :=
  (items.zipIdx index).flatMap fun (item, index) =>
    item.flatMap (Term.placed (here ++ itemPath index))

theorem item_path_ne_nil (index : Nat) : itemPath index ≠ [] := by simp [itemPath]

theorem length_foldl_push (items : List Conjunction) (l : ConsList) :
    (items.foldl ConsList.push l).length = l.length + items.length := by
  induction items generalizing l with
  | nil => rfl
  | cons item rest ih =>
    have pushed : (l.push item).length = l.length + 1 := rfl
    rw [List.foldl_cons, ih, pushed, List.length_cons]
    omega

theorem placed_foldl_push (items : List Conjunction) (l : ConsList) :
    (placedInEntries here (items.foldl ConsList.push l).avm.entries).Perm
      (placedInEntries here l.avm.entries ++ placedItems here l.length items) := by
  induction items generalizing l with
  | nil => simp [placedItems]
  | cons item rest ih =>
    have first : (placedInEntries here (l.push item).avm.entries).Perm _ :=
      placed_set_avm here l.avm (item_path_ne_nil l.length) item
    rw [List.foldl_cons, placedItems, List.zipIdx_cons, List.flatMap_cons, ← List.append_assoc]
    exact (ih (l.push item)).trans (first.append_right _)

theorem last_path_foldl_push {items : List Conjunction} (some : items ≠ []) (l : ConsList) :
    (items.foldl ConsList.push l).lastPath = (tailPath (l.length + items.length)).text := by
  obtain ⟨before, last, rfl⟩ : ∃ before last, items = before ++ [last] :=
    ⟨_, _, (List.dropLast_concat_getLast some).symm⟩
  rw [List.foldl_append, List.foldl_cons, List.foldl_nil, ConsList.push]
  simp only [length_foldl_push, List.length_append, List.length_singleton, Nat.add_assoc]

/-- A path of tails is read back as it was written. -/
theorem of_text_tail_path {length : Nat} (some : length ≠ 0) :
    Path.ofText (tailPath length).text = tailPath length := by
  refine Path.of_text_text (by simp [tailPath, some]) fun name member => ?_
  rw [List.eq_of_mem_replicate member]
  exact ⟨by decide, by decide⟩

theorem length_pushed (items : List Conjunction) :
    (items.foldl ConsList.push .empty).length = items.length := by
  rw [length_foldl_push]
  exact Nat.zero_add _

theorem last_path_pushed {items : List Conjunction} (some : items ≠ []) :
    Path.ofText (items.foldl ConsList.push .empty).lastPath = tailPath items.length := by
  rw [last_path_foldl_push some, ConsList.empty, Nat.zero_add]
  exact of_text_tail_path (by simpa using some)

theorem finish_open (l : ConsList) {last : Conjunction} (stays : ListEnd.of last = .open) :
    l.finish last = l := by
  rw [ConsList.finish, stays]

theorem finish_closed (l : ConsList) {last : Conjunction} (ends : ListEnd.of last ≠ .open) :
    l.finish last =
      { l with
        avm :=
          if l.length = 0 then { l.avm with features := none }
          else l.avm.set (Path.ofText l.lastPath) last
        terminated := true } := by
  rw [ConsList.finish]
  cases ending : ListEnd.of last with
  | «open» => exact absurd ending ends
  | closed => rfl
  | value => rfl

/-- The end of a list adds its terms at the last tail, unless the list stays open or has no items. -/
theorem placed_of_items (items : List Conjunction) (last : Conjunction) :
    (placedInEntries here (ConsList.ofItems items last).avm.entries).Perm
      (placedItems here 0 items ++
        if items = [] ∨ ListEnd.of last = .open then []
        else last.flatMap (Term.placed (here ++ tailPath items.length))) := by
  have pushed : (placedInEntries here (items.foldl ConsList.push .empty).avm.entries).Perm
      (placedItems here 0 items) := placed_foldl_push here items .empty
  rw [ConsList.ofItems]
  by_cases stays : ListEnd.of last = .open
  · rw [finish_open _ stays, if_pos (.inr stays), List.append_nil]
    exact pushed
  · rw [finish_closed _ stays]
    by_cases none : items = []
    · subst none
      simp [placedItems, ConsList.empty, Avm.entries, placed_in_entries]
    · have some : items.length ≠ 0 := by simpa using none
      have nonempty : tailPath items.length ≠ [] := by simp [tailPath, none]
      rw [if_neg (by rwa [length_pushed]), if_neg (not_or.mpr ⟨none, stays⟩), last_path_pushed none]
      exact (placed_set_avm here _ nonempty last).trans (pushed.append_right _)

theorem placed_diff_of_values (items : List Conjunction) :
    (placedInEntries here (DiffList.ofValues items).avm.entries).Perm
      (placedItems (here ++ [diffListChain]) 0 items ++
        [ (here ++ diffListChain :: tailPath items.length, .coreference none none)
        , (here ++ [diffListLast], .coreference none none) ]) := by
  let writes : List (Path × Conjunction) :=
    items.zipIdx.map fun (item, index) => (diffListChain :: itemPath index, item)
  have some : ∀ write ∈ writes, write.1 ≠ [] := by
    intro write member
    obtain ⟨item, -, rfl⟩ := List.mem_map.mp member
    exact List.cons_ne_nil _ _
  have itemsPlaced : (placedInEntries here (Avm.ofPaths writes).entries).Perm
      (placedItems (here ++ [diffListChain]) 0 items) := by
    have placed := placed_of_paths here some
    rw [List.flatMap_map] at placed
    simpa only [placedItems, List.append_assoc, List.singleton_append] using placed
  have chain : items.zipIdx.foldl
      (fun (a : Avm) (value, index) => a.set (diffListChain :: itemPath index) value) .empty =
      Avm.ofPaths writes := by
    rw [Avm.ofPaths, List.foldl_map]
  have ended := (placed_set_avm here (Avm.ofPaths writes)
    (List.cons_ne_nil diffListChain (tailPath items.length)) DiffList.openEnd).trans
    (itemsPlaced.append_right _)
  have last := (placed_set_avm here
    ((Avm.ofPaths writes).set (diffListChain :: tailPath items.length) DiffList.openEnd)
    (List.cons_ne_nil diffListLast []) DiffList.openEnd).trans (ended.append_right _)
  rw [DiffList.ofValues, chain]
  rw [List.append_assoc] at last
  exact last

end Structures

end TypeDescription
