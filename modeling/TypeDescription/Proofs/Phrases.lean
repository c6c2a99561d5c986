import TypeDescription.Phrase.Meaning
import TypeDescription.Phrase.Spelling

/-!
Phrases are nested through lists, so everything about them is defined by functions on lists beside
functions on phrases. Here those lists become maps over the parts, and one principle of induction
replaces the mutual recursion: what holds of a phrase follows from the phrases right inside it.
-/

namespace TypeDescription

/-! ## Functions on lists of parts -/

@[simp] theorem spellings_of_terms (terms : List Phrase) :
    spellingsOfTerms terms = terms.map Phrase.spelling := by
  induction terms with
  | nil => rfl
  | cons p rest ih => rw [spellingsOfTerms, ih, List.map_cons]

@[simp] theorem spellings_of_items (items : List (Series Phrase)) :
    spellingsOfItems items = items.map spellingOfSeries := by
  induction items with
  | nil => rfl
  | cons item rest ih => rw [spellingsOfItems, ih, List.map_cons]

/-- The spelling of a feature of an AVM. -/
def spellingOfFeature (feature : Series String × Series Phrase) : Spelling :=
  Spelling.ofNames feature.1 ++ spellingOfSeries feature.2

@[simp] theorem spellings_of_features (features : List (Series String × Series Phrase)) :
    spellingsOfFeatures features = features.map spellingOfFeature := by
  induction features with
  | nil => rfl
  | cons feature rest ih => rw [spellingsOfFeatures, ih, List.map_cons, spellingOfFeature]

theorem spelling_of_series (terms : Series Phrase) :
    spellingOfSeries terms = Spelling.joined .ampersand (terms.toList.map Phrase.spelling) := by
  obtain ⟨first, rest⟩ := terms
  rw [spellingOfSeries, spellings_of_terms, Series.toList, List.map_cons]

@[simp] theorem values_of_terms (terms : List Phrase) :
    valuesOfTerms terms = terms.map Phrase.term := by
  induction terms with
  | nil => rfl
  | cons p rest ih => rw [valuesOfTerms, ih, List.map_cons]

@[simp] theorem values_of_items (items : List (Series Phrase)) :
    valuesOfItems items = items.map valueOfSeries := by
  induction items with
  | nil => rfl
  | cons item rest ih => rw [valuesOfItems, ih, List.map_cons]

@[simp] theorem values_of_features (features : List (Series String × Series Phrase)) :
    valuesOfFeatures features =
      features.map fun (names, value) => (featurePath names, valueOfSeries value) := by
  induction features with
  | nil => rfl
  | cons feature rest ih => rw [valuesOfFeatures, ih, List.map_cons]

theorem value_of_series (terms : Series Phrase) :
    valueOfSeries terms = terms.toList.map Phrase.term := by
  obtain ⟨first, rest⟩ := terms
  rw [valueOfSeries, values_of_terms, Series.toList, List.map_cons]

@[simp] theorem mentions_of_terms (here : Path) (terms : List Phrase) :
    mentionsOfTerms here terms = terms.flatMap (Phrase.mentions here) := by
  induction terms with
  | nil => rfl
  | cons p rest ih => rw [mentionsOfTerms, ih, List.flatMap_cons]

@[simp] theorem mentions_of_features (here : Path)
    (features : List (Series String × Series Phrase)) :
    mentionsOfFeatures here features =
      features.flatMap fun (names, value) => mentionsOfSeries (here ++ featurePath names) value := by
  induction features with
  | nil => rfl
  | cons feature rest ih => rw [mentionsOfFeatures, ih, List.flatMap_cons]

theorem mentions_of_series (here : Path) (terms : Series Phrase) :
    mentionsOfSeries here terms = terms.toList.flatMap (Phrase.mentions here) := by
  obtain ⟨first, rest⟩ := terms
  rw [mentionsOfSeries, mentions_of_terms, Series.toList, List.flatMap_cons]

theorem mentions_of_items (chain : Path) (index : Nat) (items : List (Series Phrase)) :
    mentionsOfItems chain index items =
      (items.zipIdx index).flatMap fun (item, index) =>
        mentionsOfSeries (chain ++ itemPath index) item := by
  induction items generalizing index with
  | nil => rfl
  | cons item rest ih => rw [mentionsOfItems, ih, List.zipIdx_cons, List.flatMap_cons]

/-! ## Induction -/

namespace Series

/-- Every element satisfies it. -/
def All (P : α → Prop) (s : Series α) : Prop := ∀ a ∈ s.toList, P a

end Series

namespace Phrase

section Induction

variable {P : Phrase → Prop}
  (atom : ∀ kind text doc, P (.atom kind text doc))
  (avm : ∀ features doc, (∀ feature ∈ features, feature.2.All P) → P (.avm features doc))
  (cons : ∀ items ending doc, (∀ item ∈ items, item.All P) →
    (∀ last tail, ending = .dotted last tail → last.All P ∧ tail.All P) →
    P (.cons items ending doc))
  (diff : ∀ items doc, (∀ item ∈ items, item.All P) → P (.diff items doc))

include atom avm cons diff
set_option linter.unusedSectionVars false

mutual

private theorem induct_phrase : ∀ p : Phrase, P p
  | .atom kind text doc => atom kind text doc
  | .avm features doc => avm features doc (induct_features features)
  | .cons items ending doc => cons items ending doc (induct_items items) (induct_ending ending)
  | .diff items doc => diff items doc (induct_items items)

private theorem induct_ending : ∀ ending : Ending, ∀ last tail, ending = .dotted last tail →
    last.All P ∧ tail.All P
  | .closed, _, _, same => nomatch same
  | .ellipsis, _, _, same => nomatch same
  | .dotted last tail, _, _, same => by
    obtain ⟨rfl, rfl⟩ := Ending.dotted.inj same
    exact ⟨induct_series last, induct_series tail⟩

private theorem induct_series : ∀ terms : Series Phrase, terms.All P
  | ⟨first, rest⟩ => fun p member =>
    (List.mem_cons.mp member).elim (fun same => same ▸ induct_phrase first) (induct_terms rest p)

private theorem induct_terms : ∀ terms : List Phrase, ∀ p ∈ terms, P p
  | [] => fun _ member => nomatch member
  | p :: rest => fun q member =>
    (List.mem_cons.mp member).elim (fun same => same ▸ induct_phrase p) (induct_terms rest q)

private theorem induct_features : ∀ features : List (Series String × Series Phrase),
    ∀ feature ∈ features, feature.2.All P
  | [] => fun _ member => nomatch member
  | (_, value) :: rest => fun feature member =>
    (List.mem_cons.mp member).elim (fun same => same ▸ induct_series value)
      (induct_features rest feature)

private theorem induct_items : ∀ items : List (Series Phrase), ∀ item ∈ items, item.All P
  | [] => fun _ member => nomatch member
  | item :: rest => fun other member =>
    (List.mem_cons.mp member).elim (fun same => same ▸ induct_series item)
      (induct_items rest other)

end

/-- What holds of a phrase whenever it holds of the phrases right inside it holds of every phrase. -/
theorem induct (p : Phrase) : P p := induct_phrase atom avm cons diff p

end Induction

end Phrase

/-! ## Parts of a spelling -/

theorem subset_joined {separator : TokenKind} {parts : List Spelling} {part : Spelling}
    (member : part ∈ parts) : part ⊆ Spelling.joined separator parts := by
  induction parts with
  | nil => cases member
  | cons first rest ih =>
    rw [Spelling.joined]
    cases rest with
    | nil =>
      obtain rfl := List.mem_singleton.mp member
      rw [List.intercalate_singleton]
      exact List.Subset.refl _
    | cons second rest =>
      rw [List.intercalate_cons_cons]
      rcases List.mem_cons.mp member with rfl | later
      · exact List.subset_append_of_subset_left _ (List.subset_append_left ..)
      · exact List.subset_append_of_subset_right _ (ih later)

theorem subset_spelling_of_series {terms : Series Phrase} {p : Phrase} (member : p ∈ terms.toList) :
    p.spelling ⊆ spellingOfSeries terms := by
  rw [spelling_of_series]
  exact subset_joined (List.mem_map_of_mem member)

namespace Phrase

/-- Induction for the phrases whose tokens all satisfy something. -/
theorem induct_spelled {P : Phrase → Prop} {Q : TokenKind × String → Prop}
    (atom : ∀ kind text doc, (∀ d ∈ doc, Q (.docstring, d)) → Q (kind.tokenKind, text) →
      P (.atom kind text doc))
    (avm : ∀ features doc, (∀ d ∈ doc, Q (.docstring, d)) →
      (∀ feature ∈ features, (∀ name ∈ feature.1.toList, Q (.identifier, name)) ∧ feature.2.All P) →
      P (.avm features doc))
    (cons : ∀ items ending doc, (∀ d ∈ doc, Q (.docstring, d)) → (∀ item ∈ items, item.All P) →
      (∀ last tail, ending = .dotted last tail → last.All P ∧ tail.All P) →
      P (.cons items ending doc))
    (diff : ∀ items doc, (∀ d ∈ doc, Q (.docstring, d)) → (∀ item ∈ items, item.All P) →
      P (.diff items doc))
    (p : Phrase) : (∀ piece ∈ p.spelling, Q piece) → P p := by
  have docs {doc : Option String} {core : Spelling}
      (spelled : ∀ piece ∈ Spelling.ofDoc doc ++ core, Q piece) :
      (∀ d ∈ doc, Q (.docstring, d)) ∧ ∀ piece ∈ core, Q piece := by
    refine ⟨fun d member => spelled _ (List.mem_append_left _ ?_),
      fun piece member => spelled piece (List.mem_append_right _ member)⟩
    rw [Option.mem_def] at member
    rw [member]
    exact List.mem_singleton_self _
  have series {terms : Series Phrase} {spelling : Spelling}
      (ih : terms.All fun p => (∀ piece ∈ p.spelling, Q piece) → P p)
      (inside : spellingOfSeries terms ⊆ spelling) (spelled : ∀ piece ∈ spelling, Q piece) :
      terms.All P := fun p member =>
    ih p member fun piece pieceMember =>
      spelled piece (inside (subset_spelling_of_series member pieceMember))
  induction p using Phrase.induct with
  | atom kind text doc =>
    intro spelled
    obtain ⟨documented, core⟩ := docs spelled
    exact atom kind text doc documented (core _ (List.mem_singleton_self _))
  | avm features doc ih =>
    intro spelled
    rw [Phrase.spelling, spellings_of_features, List.append_assoc, List.append_assoc] at spelled
    obtain ⟨documented, core⟩ := docs spelled
    refine avm features doc documented fun feature member => ?_
    have inside : spellingOfFeature feature ⊆
        Spelling.symbol .avmOpen ++
          (Spelling.joined .comma (features.map spellingOfFeature) ++ Spelling.symbol .avmClose) :=
      List.subset_append_of_subset_right _ (List.subset_append_of_subset_left _
        (subset_joined (List.mem_map_of_mem member)))
    refine ⟨fun name nameMember => core _ (inside (List.mem_append_left _ ?_)),
      series (ih feature member) (fun piece pieceMember =>
        inside (List.mem_append_right _ pieceMember)) core⟩
    exact subset_joined (List.mem_map_of_mem nameMember) (List.mem_singleton_self _)
  | cons items ending doc ih ihEnding =>
    intro spelled
    rw [Phrase.spelling, spellings_of_items, List.append_assoc, List.append_assoc] at spelled
    obtain ⟨documented, core⟩ := docs spelled
    have inside : ∀ part ∈ items.map spellingOfSeries ++ ending.spellings,
        part ⊆ Spelling.symbol .consListOpen ++
          (Spelling.joined .comma (items.map spellingOfSeries ++ ending.spellings) ++
            Spelling.symbol .consListClose) := fun part member =>
      List.subset_append_of_subset_right _ (List.subset_append_of_subset_left _ (subset_joined member))
    refine cons items ending doc documented (fun item member => ?_) fun last tail same => ?_
    · exact series (ih item member) (inside _ (List.mem_append_left _ (List.mem_map_of_mem member))) core
    · obtain ⟨ihLast, ihTail⟩ := ihEnding last tail same
      subst same
      have dotted := inside _ (List.mem_append_right _ (List.mem_singleton_self _))
      refine ⟨series ihLast (fun piece member => dotted ?_) core,
        series ihTail (fun piece member => dotted ?_) core⟩
      · exact List.mem_append_left _ (List.mem_append_left _ member)
      · exact List.mem_append_right _ member
  | diff items doc ih =>
    intro spelled
    rw [Phrase.spelling, spellings_of_items, List.append_assoc, List.append_assoc] at spelled
    obtain ⟨documented, core⟩ := docs spelled
    refine diff items doc documented fun item member => series (ih item member) ?_ core
    exact List.subset_append_of_subset_right _ (List.subset_append_of_subset_left _
      (subset_joined (List.mem_map_of_mem member)))

end Phrase

end TypeDescription
