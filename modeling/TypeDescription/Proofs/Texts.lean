import TypeDescription.Term.Text

/-!
The text of a term, from the texts of its parts. Writing reduces a conjunction to an outline first;
here the outline is taken away again: an AVM is written by the texts of its values, and a list by
the texts of its items, wherever its AVM holds them.
-/

namespace TypeDescription

theorem outline_terms (c : Conjunction) : outlineTerms c = c.map Term.outline := by
  induction c with
  | nil => rfl
  | cons t rest ih => rw [outlineTerms, ih, List.map_cons]

theorem outline_entries (entries : Features) :
    outlineEntries entries = entries.map fun (name, value) => (name, Conjunction.outline value) := by
  induction entries with
  | nil => rfl
  | cons entry rest ih =>
    obtain ⟨name, value⟩ := entry
    rw [outlineEntries, ih, List.map_cons]
    rfl

theorem Conjunction.text_eq (c : Conjunction) : c.text = " & ".intercalate (c.map Term.text) := by
  rw [text, outline, Outline.ofTerms, Outline.text, outline_terms, List.map_map]
  rfl

/-- A path leads from the outlines of the features to the outline of what it leads to. -/
theorem lookup_outline (path : Path) (a : Avm) :
    Outline.lookup path (outlineMap a.features) = (a.get? path).map Conjunction.outline := by
  cases path with
  | nil => rfl
  | cons name rest =>
    obtain ⟨features, doc⟩ := a
    cases features with
    | none => rfl
    | some entries =>
      rw [outlineMap, Outline.lookup, lookup_outlineEntries, Avm.get?, Avm.entries, Option.getD_some]
      cases entries.lookup name with
      | none => rfl
      | some value => exact Conjunction.get?_outline rest value

theorem texts_of_paths (paths : List Path) (a : Avm) :
    Outline.texts paths (outlineMap a.features) = (paths.filterMap a.get?).map Conjunction.text := by
  have each : (fun path => (Outline.lookup path (outlineMap a.features)).map Outline.text) =
      fun path => (a.get? path).map Conjunction.text := by
    funext path
    rw [lookup_outline, Option.map_map]
    rfl
  rw [Outline.texts, each, List.map_filterMap]

namespace Term

theorem text_avm (a : Avm) :
    (Term.avm a).text = docBefore a.doc ++
      Features.written (a.entries.map fun (name, value) => (name, Conjunction.text value)) := by
  obtain ⟨features, doc⟩ := a
  have entries : outlineMap features =
      (Avm.entries ⟨features, doc⟩).map fun (name, value) => (name, Conjunction.outline value) := by
    cases features with
    | none => rfl
    | some entries => exact outline_entries entries
  rw [text, outline, entries]
  simp only [List.map_map]
  rfl

/-- The text after the dot of a list, if there is any. -/
def writtenTail? (l : ConsList) : Option String :=
  if l.length = 0 then none
  else ((l.avm.get? (Path.ofText l.lastPath)).filter fun c => ListEnd.of c ≠ .closed).map
    Conjunction.text

theorem text_cons (l : ConsList) :
    (Term.cons l).text = docBefore l.avm.doc ++
      ConsList.written l.avm.isNull l.terminated (l.values.map Conjunction.text) (writtenTail? l) := by
  obtain ⟨⟨features, doc⟩, lastPath, length, terminated⟩ := l
  have items := texts_of_paths ((List.range length).map itemPath) ⟨features, doc⟩
  have last := lookup_outline (Path.ofText lastPath) ⟨features, doc⟩
  simp only at items last
  rw [text, outline]
  simp only [items, last, List.filterMap_map, Option.filter_map, Option.map_map]
  rfl

theorem text_diff (l : DiffList) :
    (Term.diff l).text = docBefore l.avm.doc ++
      DiffList.written l.length (l.values.map Conjunction.text) := by
  obtain ⟨⟨features, doc⟩, length⟩ := l
  have items := texts_of_paths ((List.range length).map fun index => diffListChain :: itemPath index)
    ⟨features, doc⟩
  simp only at items
  rw [text, outline]
  simp only [items, List.filterMap_map]
  rfl

end Term

end TypeDescription
