import Mathlib.Data.List.Perm.Basic
import TypeDescription.Proofs.Places
import TypeDescription.Proofs.Sharing
import TypeDescription.Proofs.UpperCasing

/-!
Mentions and places agree. While a definition is read, the path of every coreference is worked out
from the text alone; the tree is built by writing values at the ends of paths. A phrase mentions
exactly what stands in the tree of its value, at the paths where it stands.
-/

namespace TypeDescription

/-! ## Coreferences in a tree -/

/-- The tag of a coreference and its path. -/
def tagAt? : Path × Term → Option (String × Path)
  | (path, .coreference (some tag) _) => some (tag, path)
  | _ => none

/-- A difference list and its path. -/
def diffAt? : Path × Term → Option (Path × DiffList)
  | (path, .diff l) => some (path, l)
  | _ => none

namespace Conjunction

/-- The tags that occur in a tree, with the paths at which they do. -/
def occurrences (c : Conjunction) : List (String × Path) := c.placed.filterMap tagAt?

/-- The difference lists in a tree, with their paths. -/
def diffLists (c : Conjunction) : List (Path × DiffList) := c.placed.filterMap diffAt?

end Conjunction

/-- The open end and the last feature of a difference list that stands at a path. -/
def DiffList.ends (here : Path) (l : DiffList) : List String :=
  [(here ++ l.openEndPath).text, (here ++ [diffListLast]).text]

/-- What a term mentions where it stands. -/
def mentionAt? : Path × Term → Option Mention
  | (path, .coreference (some tag) _) => some (.single (some tag) path.text)
  | (path, .diff l) => some (.together (l.ends path))
  | _ => none

/-! ## Places of phrases -/

section Phrases

variable (here : Path)

theorem placed_avm_phrase (features : List (Series String × Series Phrase)) (doc : Option String) :
    ((Phrase.avm features doc).term.placed here).Perm
      (features.flatMap fun (names, value) =>
        (valueOfSeries value).flatMap (Term.placed (here ++ featurePath names))) := by
  have some : ∀ write ∈ valuesOfFeatures features, write.1 ≠ [] := by
    intro write member
    rw [values_of_features] at member
    obtain ⟨⟨names, value⟩, -, rfl⟩ := List.mem_map.mp member
    exact List.cons_ne_nil _ _
  have placed := placed_of_paths here some
  rw [values_of_features, List.flatMap_map] at placed
  rw [Phrase.term, Term.withDoc, placed_avm, values_of_features]
  exact placed

theorem placed_cons_phrase (items : List (Series Phrase)) (ending : Ending) (doc : Option String) :
    ((Phrase.cons items ending doc).term.placed here).Perm
      ((here, (Phrase.cons items ending doc).term) ::
        (placedItems here 0 (items.map valueOfSeries ++ ending.values.1) ++
          if items.map valueOfSeries ++ ending.values.1 = [] ∨
            ListEnd.of ending.values.2 = .open then []
          else ending.values.2.flatMap
            (Term.placed (here ++ tailPath (items.map valueOfSeries ++ ending.values.1).length)))) := by
  have placed := placed_of_items here (items.map valueOfSeries ++ ending.values.1) ending.values.2
  rw [Phrase.term, values_of_items]
  simp only [Term.withDoc, placed_cons]
  exact placed.cons _

theorem placed_diff_phrase (items : List (Series Phrase)) (doc : Option String) :
    ((Phrase.diff items doc).term.placed here).Perm
      ((here, (Phrase.diff items doc).term) ::
        (placedItems (here ++ [diffListChain]) 0 (items.map valueOfSeries) ++
          [ (here ++ diffListChain :: tailPath items.length, .coreference none none)
          , (here ++ [diffListLast], .coreference none none) ])) := by
  have placed := placed_diff_of_values here (items.map valueOfSeries)
  rw [List.length_map] at placed
  rw [Phrase.term, values_of_items]
  simp only [Term.withDoc, placed_diff]
  exact placed.cons _

end Phrases

/-! ## Mentions of phrases -/

/-- The phrase mentions what stands in its value. -/
private def MentionsAll (p : Phrase) : Prop :=
  ∀ here, ((p.term.placed here).filterMap mentionAt?).Perm (p.mentions here)

private theorem series_mentions {terms : Series Phrase} (each : terms.All MentionsAll) (here : Path) :
    (((valueOfSeries terms).flatMap (Term.placed here)).filterMap mentionAt?).Perm
      (mentionsOfSeries here terms) := by
  rw [value_of_series, List.flatMap_map, List.filterMap_flatMap, mentions_of_series]
  exact List.Perm.flatMap_left _ fun p member => each p member here

private theorem items_mention {items : List (Series Phrase)}
    (each : ∀ item ∈ items, item.All MentionsAll) (chain : Path) (index : Nat) :
    ((placedItems chain index (items.map valueOfSeries)).filterMap mentionAt?).Perm
      (mentionsOfItems chain index items) := by
  rw [placedItems, List.zipIdx_map, List.flatMap_map, List.filterMap_flatMap, mentions_of_items]
  refine List.Perm.flatMap_left _ fun place member => ?_
  exact series_mentions (each place.1 (List.fst_mem_of_mem_zipIdx member)) _

theorem placed_items_append (chain : Path) (items : List Conjunction) (last : Conjunction) :
    placedItems chain 0 (items ++ [last]) =
      placedItems chain 0 items ++ last.flatMap (Term.placed (chain ++ itemPath items.length)) := by
  simp [placedItems, List.zipIdx_append]

/-- A tail that leaves a list open mentions nothing. -/
private theorem mentions_of_open {tail : Series Phrase} (each : tail.All MentionsAll)
    (stays : ListEnd.of (valueOfSeries tail) = .open) (here : Path) :
    mentionsOfSeries here tail = [] := by
  have same := series_mentions each here
  obtain ⟨doc, alone⟩ := list_end_open_iff.mp stays
  rw [alone] at same
  exact List.nil_perm.mp same

private theorem mention_of_diff (here : Path) (items : List (Series Phrase)) (doc : Option String) :
    mentionAt? (here, (Phrase.diff items doc).term) =
      some (.together
        [ (here ++ diffListChain :: tailPath items.length).text
        , (here ++ [diffListLast]).text ]) := by
  simp [Phrase.term, Term.withDoc, mentionAt?, DiffList.ends, DiffList.openEndPath,
    DiffList.ofValues]

private theorem cons_mentions (here : Path) {items : List (Series Phrase)} (ending : Ending)
    (each : ∀ item ∈ items, item.All MentionsAll)
    (eachEnding : ∀ last tail, ending = .dotted last tail →
      last.All MentionsAll ∧ tail.All MentionsAll) :
    ((placedItems here 0 (items.map valueOfSeries ++ ending.values.1) ++
      if items.map valueOfSeries ++ ending.values.1 = [] ∨
        ListEnd.of ending.values.2 = .open then []
      else ending.values.2.flatMap
        (Term.placed (here ++ tailPath (items.map valueOfSeries ++ ending.values.1).length))).filterMap
          mentionAt?).Perm
      (mentionsOfItems here 0 items ++ ending.mentions here items.length) := by
  have itemsAgree := items_mention each here 0
  cases ending with
  | closed =>
    have mark (path : Path) : (Term.placed path (.named emptyListType)).filterMap mentionAt? = [] := rfl
    simp only [Ending.values, Ending.mentions, List.append_nil, List.filterMap_append]
    split
    · simpa using itemsAgree
    · simpa [mark] using itemsAgree
  | ellipsis =>
    have stays : ListEnd.of [.named openListType] = .open := by decide
    simp only [Ending.values, Ending.mentions, List.append_nil, stays, or_true, ↓reduceIte]
    exact itemsAgree
  | dotted last tail =>
    obtain ⟨eachLast, eachTail⟩ := eachEnding last tail rfl
    have lastAgrees := series_mentions eachLast (here ++ itemPath items.length)
    have tailAgrees := series_mentions eachTail (here ++ tailPath (items.length + 1))
    simp only [Ending.values, Ending.mentions, placed_items_append, List.length_append,
      List.length_map, List.length_singleton, List.append_eq_nil_iff, List.cons_ne_nil, and_false,
      false_or, List.filterMap_append]
    rw [← List.append_assoc]
    refine List.Perm.append (itemsAgree.append lastAgrees) ?_
    split
    · next stays =>
      rw [mentions_of_open eachTail stays]
      exact List.Perm.refl _
    · exact tailAgrees

/-- The mentions of a phrase are what stands in the tree of its value. -/
theorem Phrase.mentions_perm (p : Phrase) : ∀ here,
    ((p.term.placed here).filterMap mentionAt?).Perm (p.mentions here) := by
  induction p using Phrase.induct with
  | atom kind text doc => cases kind <;> exact fun here => List.Perm.refl _
  | avm features doc ih =>
    intro here
    refine ((placed_avm_phrase here features doc).filterMap mentionAt?).trans ?_
    rw [List.filterMap_flatMap, Phrase.mentions, mentions_of_features]
    exact List.Perm.flatMap_left _ fun feature member => series_mentions (ih feature member) _
  | cons items ending doc ih ihEnding =>
    intro here
    have list : mentionAt? (here, (Phrase.cons items ending doc).term) = none := rfl
    refine ((placed_cons_phrase here items ending doc).filterMap mentionAt?).trans ?_
    rw [List.filterMap_cons_none list, Phrase.mentions]
    exact cons_mentions here ending ih ihEnding
  | diff items doc ih =>
    intro here
    have agree := items_mention ih (here ++ [diffListChain]) 0
    refine ((placed_diff_phrase here items doc).filterMap mentionAt?).trans ?_
    rw [List.filterMap_cons_some (mention_of_diff here items doc), List.filterMap_append,
      Phrase.mentions]
    have openEnds : ([(here ++ diffListChain :: tailPath items.length, .coreference none none),
        (here ++ [diffListLast], .coreference none none)] : List (Path × Term)).filterMap mentionAt? =
        [] := rfl
    rw [openEnds, List.append_nil]
    exact (agree.cons _).trans (List.perm_append_singleton ..).symm

theorem Body.mentions_perm (body : Body) :
    (body.conjunction.placed.filterMap mentionAt?).Perm body.mentions := by
  cases body with
  | docOnly doc => exact List.Perm.refl _
  | joined terms doc =>
    rw [Body.conjunction, Conjunction.placed, placed_in_terms, Body.mentions]
    exact series_mentions (fun p _ => p.mentions_perm) []

theorem tag_at_eq_some_iff {place : Path × Term} {tag : String} {path : Path} :
    tagAt? place = some (tag, path) ↔ ∃ doc, place = (path, .coreference (some tag) doc) := by
  fun_cases tagAt? place with
  | case1 path' tag' doc => simp [and_comm]
  | case2 => simp_all

theorem mention_at_eq_single_iff {place : Path × Term} {tag text : String} :
    mentionAt? place = some (.single (some tag) text) ↔
      ∃ path doc, place = (path, .coreference (some tag) doc) ∧ path.text = text := by
  fun_cases mentionAt? place with
  | case1 path tag' doc => simp [and_comm]
  | case2 path l => simp
  | case3 => simp_all

/-- A tag is mentioned at the texts of the paths at which it occurs. -/
theorem mentioned_iff_occurs {body : Body} {tag text : String} :
    Mention.At body.mentions tag text ↔
      ∃ path, (tag, path) ∈ body.conjunction.occurrences ∧ path.text = text := by
  rw [Mention.At, ← body.mentions_perm.mem_iff, Conjunction.occurrences]
  simp only [List.mem_filterMap, tag_at_eq_some_iff, mention_at_eq_single_iff]
  constructor
  · rintro ⟨place, member, path, doc, rfl, rfl⟩
    exact ⟨path, ⟨_, member, doc, rfl⟩, rfl⟩
  · rintro ⟨path, ⟨place, member, doc, rfl⟩, rfl⟩
    exact ⟨_, member, path, doc, rfl, rfl⟩

/-- What is mentioned without a tag are the ends of difference lists. -/
theorem untagged_perm (body : Body) :
    (body.mentions.filterMap Mention.untagged?).Perm
      (body.conjunction.diffLists.map fun (path, l) => l.ends path) := by
  refine (body.mentions_perm.symm.filterMap Mention.untagged?).trans (List.Perm.of_eq ?_)
  rw [Conjunction.diffLists, List.filterMap_filterMap, List.map_filterMap]
  refine List.filterMap_congr fun place _ => ?_
  obtain ⟨path, term⟩ := place
  cases term with
  | diff l =>
    have distinct : (l.ends path).eraseDups = l.ends path := by
      have differ := text_open_end_ne_last path l.length
      have differ' : ((path ++ [diffListLast]).text == (path ++ l.openEndPath).text) = false :=
        beq_false_of_ne differ
      simp [DiffList.ends, List.eraseDups_cons, differ']
    simp [mentionAt?, diffAt?, Mention.untagged?, distinct]
  | type form text doc => rfl
  | coreference tag doc => cases tag <;> rfl
  | avm a => rfl
  | cons l => rfl

/-! ## Paths of symbols -/

namespace Path

/-- All names are symbols, as those that the lexer finds are. -/
def Plain (path : Path) : Prop := ∀ name ∈ path, Lexeme.IsSymbol name.toList

theorem Plain.append {first second : Path} (plain : first.Plain) (plain' : second.Plain) :
    (first ++ second).Plain := by
  intro name member
  rcases List.mem_append.mp member with member | member
  · exact plain name member
  · exact plain' name member

theorem plain_singleton {name : String} (symbol : Lexeme.IsSymbol name.toList) : Plain [name] :=
  fun _ member => List.mem_singleton.mp member ▸ symbol

/-- A plain path is known from its text. -/
theorem text_inj_of_plain {first second : Path} (plain : first.Plain) (plain' : second.Plain)
    (same : first.text = second.text) : first = second := by
  have split {path : Path} (plain : path.Plain) (some : path ≠ []) :
      path.text.toList.splitOn '.' = path.map String.toList := by
    refine split_text some fun name member dot => ?_
    exact absurd ((plain name member).all '.' dot) (by decide)
  have nonempty {path : Path} (plain : path.Plain) (some : path ≠ []) : path.text ≠ "" := by
    intro empty
    have pieces := split plain some
    rw [empty] at pieces
    obtain ⟨name, rest, rfl⟩ := List.exists_cons_of_ne_nil some
    exact (plain name (List.mem_cons_self ..)).nonempty (List.cons.inj pieces).1.symm
  by_cases none : first = []
  · subst none
    by_cases none' : second = []
    · exact none'.symm
    · exact absurd same.symm (nonempty plain' none')
  · by_cases none' : second = []
    · subst none'
      exact absurd same (nonempty plain none)
    · have pieces := split plain none
      rw [same, split plain' none'] at pieces
      have injective : Function.Injective String.toList := fun _ _ => String.toList_injective
      exact (List.map_injective_iff.mpr injective pieces).symm

end Path

theorem tail_path_plain (length : Nat) : (tailPath length).Plain := by
  intro name member
  rw [List.eq_of_mem_replicate member]
  exact Lexeme.is_symbol_of_all (by decide) (by decide)

theorem item_path_plain (index : Nat) : (itemPath index).Plain :=
  (tail_path_plain index).append
    (Path.plain_singleton (Lexeme.is_symbol_of_all (by decide) (by decide)))

theorem feature_path_plain {names : Series String}
    (admitted : ∀ name ∈ names.toList, TokenKind.identifier.Admits name.toList) :
    (featurePath names).Plain := by
  intro name member
  obtain ⟨name', inside, rfl⟩ := List.mem_map.mp member
  exact is_symbol_upper_case (admitted name' inside).1

/-- If the terms stand at such a path, this holds of all that is inside them. -/
def Conjunction.Inside (stands : Path → Prop) (holds : Path × Term → Prop) (c : Conjunction) : Prop :=
  ∀ here, stands here → ∀ place ∈ c.flatMap (Term.placed here), holds place

section Inside

variable {stands : Path → Prop} {holds : Path × Term → Prop}

theorem inside_series {terms : Series Phrase}
    (each : terms.All fun p => Conjunction.Inside stands holds [p.term]) :
    (valueOfSeries terms).Inside stands holds := by
  intro here stood place member
  rw [value_of_series, List.flatMap_map] at member
  obtain ⟨p, inside, member⟩ := List.mem_flatMap.mp member
  exact each p inside here stood place (by simpa using member)

theorem inside_values {items : List (Series Phrase)}
    (each : ∀ item ∈ items, item.All fun p => Conjunction.Inside stands holds [p.term]) :
    ∀ value ∈ items.map valueOfSeries, value.Inside stands holds := by
  intro value member
  obtain ⟨terms, inside, rfl⟩ := List.mem_map.mp member
  exact inside_series (each terms inside)

theorem inside_items {items : List Conjunction} (each : ∀ item ∈ items, item.Inside stands holds)
    {here : Path} (below : ∀ index, stands (here ++ itemPath index)) :
    ∀ place ∈ placedItems here 0 items, holds place := by
  intro place member
  obtain ⟨⟨item, index⟩, inside, member⟩ := List.mem_flatMap.mp member
  exact each item (List.fst_mem_of_mem_zipIdx inside) _ (below index) place member

theorem inside_ending {ending : Ending}
    (named : ∀ (here : Path) (name : String), stands here → holds (here, .named name))
    (each : ∀ last tail, ending = .dotted last tail →
      (last.All fun p => Conjunction.Inside stands holds [p.term]) ∧
        tail.All fun p => Conjunction.Inside stands holds [p.term]) :
    (∀ item ∈ ending.values.1, item.Inside stands holds) ∧ ending.values.2.Inside stands holds := by
  have mark (name : String) : Conjunction.Inside stands holds [.named name] := by
    intro here stood place member
    obtain rfl : place = (here, .named name) := by simpa [Term.named, Term.placed] using member
    exact named here name stood
  cases ending with
  | closed => exact ⟨fun item member => (nomatch member), mark emptyListType⟩
  | ellipsis => exact ⟨fun item member => (nomatch member), mark openListType⟩
  | dotted last tail =>
    obtain ⟨lastInside, tailInside⟩ := each last tail rfl
    refine ⟨fun item member => ?_, inside_series tailInside⟩
    rw [List.mem_singleton.mp member]
    exact inside_series lastInside

end Inside

/-- Whatever is in the tree of an admitted phrase stands at a plain path. -/
theorem Phrase.placed_plain {p : Phrase}
    (admitted : ∀ piece ∈ p.spelling, piece.1.Admits piece.2.toList) :
    ∀ here : Path, here.Plain → ∀ place ∈ p.term.placed here, place.1.Plain := by
  have chainPlain : Path.Plain [diffListChain] :=
    Path.plain_singleton (Lexeme.is_symbol_of_all (by decide) (by decide))
  have lastPlain : Path.Plain [diffListLast] :=
    Path.plain_singleton (Lexeme.is_symbol_of_all (by decide) (by decide))
  suffices inside : Conjunction.Inside Path.Plain (·.1.Plain) [p.term] by
    simpa [Conjunction.Inside] using inside
  refine Phrase.induct_spelled (P := fun p => Conjunction.Inside Path.Plain (·.1.Plain) [p.term])
    (fun kind text doc _ _ => ?_) (fun features doc _ parts => ?_)
    (fun items ending doc _ each eachEnding => ?_) (fun items doc _ each => ?_) p admitted
  all_goals
    intro here plain place member
    rw [List.flatMap_singleton] at member
  · have alone : place.1 = here := by
      cases kind <;> exact congrArg Prod.fst (List.mem_singleton.mp member)
    exact alone ▸ plain
  · rw [(placed_avm_phrase here features doc).mem_iff] at member
    obtain ⟨feature, inside, member⟩ := List.mem_flatMap.mp member
    obtain ⟨names, values⟩ := parts feature inside
    exact inside_series values _ (plain.append (feature_path_plain names)) place member
  · obtain ⟨lastItems, lastValue⟩ := inside_ending (fun _ _ stood => stood) eachEnding
    have values := List.forall_mem_append.mpr ⟨inside_values each, lastItems⟩
    have below (index : Nat) : Path.Plain (here ++ itemPath index) := plain.append (item_path_plain index)
    rw [(placed_cons_phrase here items ending doc).mem_iff] at member
    rcases List.mem_cons.mp member with rfl | member
    · exact plain
    · rcases List.mem_append.mp member with member | member
      · exact inside_items values below place member
      · split at member
        · cases member
        · exact lastValue _ (plain.append (tail_path_plain _)) place member
  · rw [(placed_diff_phrase here items doc).mem_iff] at member
    rcases List.mem_cons.mp member with rfl | member
    · exact plain
    · rcases List.mem_append.mp member with member | member
      · exact inside_items (inside_values each)
          (fun index => (plain.append chainPlain).append (item_path_plain index)) place member
      · rcases List.mem_cons.mp member with rfl | member
        · have openEnd := (plain.append chainPlain).append (tail_path_plain items.length)
          rwa [List.append_assoc] at openEnd
        · obtain rfl := List.mem_singleton.mp member
          exact plain.append lastPlain

end TypeDescription
