import Mathlib.Data.List.Nodup
import TypeDescription.Proofs.Coreferences
import TypeDescription.Proofs.Grammar

/-!
The coreference sets of a definition. They are read off the mentions, and the mentions are what
stands in the tree: so there is one set for each tag in the tree, with the paths at which the tag
occurs, and then one for each difference list. A definition that has all it needs otherwise is
refused exactly if a tag occurs at a single path, for the first such tag in its text.
-/

namespace TypeDescription

open Spelling

/-! ## Tags in the order of the text -/

/-- The tag that a token stands for. -/
def writtenTag? : TokenKind × String → Option String
  | (.coreference, text) => some (coreferenceTag text)
  | _ => none

private theorem tags_of_symbol {kind : TokenKind} (plain : kind ≠ .coreference) :
    (symbol kind).filterMap writtenTag? = [] := by
  cases kind <;> first | rfl | exact absurd rfl plain

private theorem tags_of_joined {separator : TokenKind} (plain : separator ≠ .coreference)
    (parts : List Spelling) :
    (joined separator parts).filterMap writtenTag? =
      parts.flatMap (List.filterMap writtenTag?) := by
  have silent := tags_of_symbol plain
  rw [joined]
  induction parts with
  | nil => rfl
  | cons first rest ih =>
    cases rest with
    | nil => simp
    | cons second rest =>
      rw [List.intercalate_cons_cons, List.filterMap_append, List.filterMap_append, silent, ih]
      simp

private theorem tags_of_doc (doc : Option String) : (ofDoc doc).filterMap writtenTag? = [] := by
  cases doc <;> rfl

/-- Delimiters have no tags. -/
private theorem tags_of_enclosed (doc : Option String) {opener closer : TokenKind}
    (plain : opener ≠ .coreference) (plain' : closer ≠ .coreference) (parts : List Spelling) :
    (ofDoc doc ++ symbol opener ++ joined .comma parts ++ symbol closer).filterMap writtenTag? =
      parts.flatMap (List.filterMap writtenTag?) := by
  have comma : TokenKind.comma ≠ .coreference := by simp
  simp only [List.filterMap_append, tags_of_doc, tags_of_symbol plain, tags_of_symbol plain',
    tags_of_joined comma, List.nil_append, List.append_nil]

private theorem tags_of_names (names : Series String) :
    (ofNames names).filterMap writtenTag? = [] := by
  rw [ofNames, tags_of_joined (by simp), List.flatMap_map]
  exact List.flatMap_eq_nil_iff.mpr fun name _ => rfl

/-- The tags of a phrase are mentioned in the order of its text. -/
private def TagsInOrder (p : Phrase) : Prop :=
  ∀ here, (p.mentions here).filterMap Mention.tag? = p.spelling.filterMap writtenTag?

private theorem series_tags {terms : Series Phrase} (each : terms.All TagsInOrder) (here : Path) :
    (mentionsOfSeries here terms).filterMap Mention.tag? =
      (spellingOfSeries terms).filterMap writtenTag? := by
  rw [mentions_of_series, spelling_of_series, tags_of_joined (by simp), List.filterMap_flatMap,
    List.flatMap_map]
  exact List.flatMap_congr fun p member => each p member here

private theorem items_tags {items : List (Series Phrase)} (each : ∀ item ∈ items, item.All TagsInOrder)
    (chain : Path) (index : Nat) :
    (mentionsOfItems chain index items).filterMap Mention.tag? =
      (items.map spellingOfSeries).flatMap (List.filterMap writtenTag?) := by
  induction items generalizing index with
  | nil => rfl
  | cons item rest ih =>
    obtain ⟨first, later⟩ := List.forall_mem_cons.mp each
    rw [mentionsOfItems, List.filterMap_append, series_tags first, ih later, List.map_cons,
      List.flatMap_cons]

private theorem tags_in_order (p : Phrase) : TagsInOrder p := by
  induction p using Phrase.induct with
  | atom kind text doc =>
    intro here
    rw [Phrase.spelling, List.filterMap_append, tags_of_doc]
    cases kind <;> rfl
  | avm features doc ih =>
    intro here
    rw [Phrase.mentions, mentions_of_features, Phrase.spelling, spellings_of_features,
      tags_of_enclosed doc (by simp) (by simp), List.filterMap_flatMap, List.flatMap_map]
    refine List.flatMap_congr fun feature member => ?_
    rw [spellingOfFeature, List.filterMap_append, tags_of_names, List.nil_append]
    exact series_tags (ih feature member) _
  | cons items ending doc ih ihEnding =>
    intro here
    rw [Phrase.mentions, Phrase.spelling, spellings_of_items,
      tags_of_enclosed doc (by simp) (by simp), List.filterMap_append, List.flatMap_append,
      items_tags ih]
    congr 1
    cases ending with
    | closed => rfl
    | ellipsis => rfl
    | dotted last tail =>
      obtain ⟨ihLast, ihTail⟩ := ihEnding last tail rfl
      have dot : TokenKind.dot ≠ .coreference := by simp
      rw [Ending.mentions, Ending.spellings, List.flatMap_singleton]
      simp only [List.filterMap_append, series_tags ihLast, series_tags ihTail, tags_of_symbol dot,
        List.append_nil]
  | diff items doc ih =>
    intro here
    rw [Phrase.mentions, Phrase.spelling, spellings_of_items,
      tags_of_enclosed doc (by simp) (by simp), List.filterMap_append, items_tags ih]
    exact List.append_nil _

/-- The tags of a body are mentioned in the order of its text. -/
theorem tags_of_body (body : Body) :
    body.mentions.filterMap Mention.tag? = body.spelling.filterMap writtenTag? := by
  cases body with
  | docOnly doc => rfl
  | joined terms doc =>
    rw [Body.mentions, Body.spelling, List.filterMap_append, tags_of_doc, List.append_nil]
    exact series_tags (fun p _ => tags_in_order p) []

private theorem tags_of_head (head : Head) : head.spelling.filterMap writtenTag? = [] := by
  rcases head with _ | ⟨old, _ | ⟨side, patterns⟩⟩
  · rfl
  · rfl
  · have silent : (patterns.map fun pattern => (TokenKind.affixPattern, pattern)).filterMap
        writtenTag? = [] := by
      rw [List.filterMap_map]
      exact List.filterMap_eq_nil_iff.mpr fun pattern _ => rfl
    rw [Head.spelling, List.filterMap_cons_none rfl, List.filterMap_cons_none rfl, silent]

/-! ## Tags at a single path -/

/-- The tag occurs in the tree at this path and at no other. -/
def Solitary (c : Conjunction) (tag : String) (path : Path) : Prop :=
  (tag, path) ∈ c.occurrences ∧ ∀ other, (tag, other) ∈ c.occurrences → other = path

section Bodies

variable {body : Body} (admitted : ∀ piece ∈ body.spelling, piece.1.Admits piece.2.toList)

include admitted

theorem occurrences_plain : ∀ place ∈ body.conjunction.occurrences, place.2.Plain := by
  rintro ⟨tag, path⟩ member
  obtain ⟨place, inside, tagged⟩ := List.mem_filterMap.mp member
  obtain ⟨doc, rfl⟩ := tag_at_eq_some_iff.mp tagged
  cases body with
  | docOnly doc => cases inside
  | joined terms doc =>
    have empty : Path.Plain [] := fun name member => nomatch member
    rw [Body.conjunction, Conjunction.placed, placed_in_terms, value_of_series,
      List.flatMap_map] at inside
    obtain ⟨p, inTerms, inside⟩ := List.mem_flatMap.mp inside
    have spelled : ∀ piece ∈ p.spelling, piece.1.Admits piece.2.toList := fun piece member =>
      admitted piece (List.mem_append_left _ (subset_spelling_of_series inTerms member))
    exact Phrase.placed_plain spelled [] empty _ inside

/-- A tag is shared unless it occurs at a single path. -/
theorem shared_iff_not_solitary {tag : String} :
    Mention.Shared body.mentions tag ↔ ∀ path, ¬ Solitary body.conjunction tag path := by
  constructor
  · rintro shared path ⟨occurs, only⟩
    obtain ⟨text, differ, mentioned⟩ := shared path.text (mentioned_iff_occurs.mpr ⟨path, occurs, rfl⟩)
    obtain ⟨other, occurs', rfl⟩ := mentioned_iff_occurs.mp mentioned
    rw [only other occurs'] at differ
    exact differ rfl
  · intro none text mentioned
    obtain ⟨path, occurs, rfl⟩ := mentioned_iff_occurs.mp mentioned
    obtain ⟨other, occurs', differ⟩ : ∃ other, (tag, other) ∈ body.conjunction.occurrences ∧
        other ≠ path := by
      by_contra only
      push Not at only
      exact none path ⟨occurs, only⟩
    refine ⟨other.text, fun same => differ ?_, mentioned_iff_occurs.mpr ⟨other, occurs', rfl⟩⟩
    exact Path.text_inj_of_plain (occurrences_plain admitted _ occurs')
      (occurrences_plain admitted _ occurs) same

end Bodies

/-! ## The sets of a definition -/

/-- The sets are those of the tags of a tree and those of its difference lists. -/
structure SetsOf (c : Conjunction) (tagged untagged : List CoreferenceSet) : Prop where
  /-- No two of the sets have one tag. -/
  tags_nodup : (tagged.map (·.tag)).Nodup
  tags : ∀ tag, some tag ∈ tagged.map (·.tag) ↔ ∃ path, (tag, path) ∈ c.occurrences
  /-- The paths of a set are those at which its tag occurs, two at least and no path twice. -/
  paths : ∀ set ∈ tagged, ∃ (tag : String) (paths : List Path),
    set.tag = some tag ∧ set.paths = paths.map Path.text ∧ set.paths.Nodup ∧ 2 ≤ paths.length ∧
      ∀ path, path ∈ paths ↔ (tag, path) ∈ c.occurrences
  /-- Every difference list has a set of its own. -/
  ends : untagged.Perm (c.diffLists.map fun (path, l) => { tag := none, paths := l.ends path })

theorem exists_preimages {f : α → β} {P : α → Prop} {l : List β}
    (each : ∀ b ∈ l, ∃ a, P a ∧ f a = b) : ∃ l' : List α, l = l'.map f ∧ ∀ a ∈ l', P a := by
  induction l with
  | nil => exact ⟨[], rfl, fun a member => nomatch member⟩
  | cons b rest ih =>
    obtain ⟨first, later⟩ := List.forall_mem_cons.mp each
    obtain ⟨a, holds, rfl⟩ := first
    obtain ⟨rest', rfl, holds'⟩ := ih later
    exact ⟨a :: rest', rfl, List.forall_mem_cons.mpr ⟨holds, holds'⟩⟩

/-- The paths in the set of a shared tag are those at which it occurs. -/
private theorem paths_of_tag {body : Body}
    (admitted : ∀ piece ∈ body.spelling, piece.1.Admits piece.2.toList) {tag : String} {path : Path}
    (shared : Mention.Shared body.mentions tag) (inTree : (tag, path) ∈ body.conjunction.occurrences) :
    ∃ paths : List Path, (CoreferenceSet.ofTag body.mentions tag).paths = paths.map Path.text ∧
      2 ≤ paths.length ∧ ∀ path, path ∈ paths ↔ (tag, path) ∈ body.conjunction.occurrences := by
  have texts : ∀ text ∈ (CoreferenceSet.ofTag body.mentions tag).paths,
      ∃ path, (tag, path) ∈ body.conjunction.occurrences ∧ path.text = text := fun text member =>
    mentioned_iff_occurs.mp (Mention.mem_paths_iff.mp (List.mem_eraseDups.mp member))
  obtain ⟨paths, shape, sound⟩ := exists_preimages texts
  have mentioned : Mention.At body.mentions tag path.text :=
    mentioned_iff_occurs.mpr ⟨path, inTree, rfl⟩
  have several := mt (CoreferenceSet.is_solitary_of_tag_iff mentioned).mp (fun alone => alone shared)
  refine ⟨paths, shape, ?_, fun path' => ⟨sound path', fun inTree' => ?_⟩⟩
  · rw [CoreferenceSet.isSolitary, shape, List.length_map, decide_eq_true_eq] at several
    omega
  · have member : path'.text ∈ (CoreferenceSet.ofTag body.mentions tag).paths :=
      List.mem_eraseDups.mpr
        (Mention.mem_paths_iff.mpr (mentioned_iff_occurs.mpr ⟨path', inTree', rfl⟩))
    rw [shape] at member
    obtain ⟨other, inside', same⟩ := List.mem_map.mp member
    have plain := occurrences_plain admitted _ (sound other inside')
    have plain' := occurrences_plain admitted _ inTree'
    have equal : other = path' := Path.text_inj_of_plain plain plain' same
    exact equal ▸ inside'

theorem sets_of_mentions {body : Body}
    (admitted : ∀ piece ∈ body.spelling, piece.1.Admits piece.2.toList)
    (shared : ∀ tag, Mention.Shared body.mentions tag) :
    ∃ tagged untagged, CoreferenceSet.ofMentions body.mentions = tagged ++ untagged ∧
      SetsOf body.conjunction tagged untagged := by
  let tags := (body.mentions.filterMap Mention.tag?).eraseDups
  have occurs : ∀ tag, tag ∈ tags ↔ ∃ path, (tag, path) ∈ body.conjunction.occurrences := by
    intro tag
    rw [List.mem_eraseDups, Mention.mem_tags_iff]
    constructor
    · rintro ⟨text, mentioned⟩
      obtain ⟨path, inside, -⟩ := mentioned_iff_occurs.mp mentioned
      exact ⟨path, inside⟩
    · rintro ⟨path, inside⟩
      exact ⟨path.text, mentioned_iff_occurs.mpr ⟨path, inside, rfl⟩⟩
  have injective : Function.Injective (some : String → Option String) := fun _ _ => Option.some.inj
  have named : (tags.map (CoreferenceSet.ofTag body.mentions)).map (·.tag) = tags.map some := by
    rw [List.map_map]
    rfl
  refine ⟨tags.map (CoreferenceSet.ofTag body.mentions),
    (body.mentions.filterMap Mention.untagged?).map fun paths => { tag := none, paths }, rfl,
    ⟨?_, fun tag => ?_, fun set member => ?_, ?_⟩⟩
  · rw [named]
    exact List.Nodup.map injective (nodup_eraseDups _)
  · rw [named, ← occurs]
    exact List.mem_map_of_injective injective
  · obtain ⟨tag, inside, rfl⟩ := List.mem_map.mp member
    obtain ⟨path, inTree⟩ := (occurs tag).mp inside
    obtain ⟨paths, shape, several, exact'⟩ := paths_of_tag admitted (shared tag) inTree
    exact ⟨tag, paths, rfl, shape, nodup_eraseDups _, several, exact'⟩
  · have ends := (untagged_perm body).map fun paths => ({ tag := none, paths } : CoreferenceSet)
    rw [List.map_map] at ends
    exact ends

/-! ## Definitions of a source -/

/-- Whatever the options are, no event is made up. -/
theorem mem_read_all_events {source : Source} {options : ReadOptions} {e : Event}
    (member : e ∈ (source.read options).events) : e ∈ source.readAll.events := by
  obtain ⟨name, comments⟩ := options
  cases comments with
  | true => cases name <;> exact member
  | false => cases name <;> exact (List.mem_filter.mp member).1

theorem exists_event_of_definition {source : Source} {options : ReadOptions} {d : Definition}
    (member : d ∈ (source.read options).definitions) :
    ∃ e ∈ source.readAll.events, e.definition? = some d := by
  obtain ⟨e, inside, defined⟩ := List.mem_filterMap.mp member
  exact ⟨e, mem_read_all_events inside, defined⟩

/-- A definition that is read is what some grammatical definition among the tokens means. -/
theorem exists_declaration {source : Source} {e : Event} {d : Definition}
    (member : e ∈ source.readAll.events) (defined : e.definition? = some d) :
    ∃ (declared : Declaration) (name dot : Token) (inner : List Token),
      (Item.definition declared name inner dot).Grammatical ∧
      (Item.definition declared name inner dot).tokens ⊆ source.scan.tokens ∧
      declared.event = .ok e := by
  obtain ⟨item, inside, grammatical, -, meant⟩ := item_of_event member
  cases item with
  | comment t =>
    rw [Item.event] at meant
    split at meant <;> cases meant <;> cases defined
  | letterSet t =>
    cases meant
    cases defined
  | definition declared name inner dot => exact ⟨declared, name, dot, inner, grammatical, inside, meant⟩

/-- The name of a definition that is read is an identifier of the source. -/
theorem exists_name {source : Source} {options : ReadOptions} {d : Definition}
    (member : d ∈ (source.read options).definitions) :
    ∃ t ∈ source.scan.tokens, t.kind = .identifier ∧ t.text = d.identifier := by
  obtain ⟨e, inEvents, defined⟩ := exists_event_of_definition member
  obtain ⟨declared, name, dot, inner, grammatical, inside, meant⟩ := exists_declaration inEvents defined
  rw [Declaration.identifier_of_event meant defined]
  obtain ⟨t, inItem, bare⟩ := exists_token_of_spelling grammatical _ (List.mem_cons_self ..)
  obtain ⟨kind, text⟩ := Prod.mk.inj bare
  exact ⟨t, inside inItem, kind, text⟩

/-- A term of a definition that is read is the value of a phrase that is spelled with tokens of the
source. -/
theorem exists_phrase {source : Source} {options : ReadOptions} {d : Definition}
    (member : d ∈ (source.read options).definitions) {t : Term} (inside : t ∈ d.conjunction) :
    ∃ p : Phrase, p.term = t ∧ ∀ piece ∈ p.spelling, ∃ token ∈ source.scan.tokens, token.bare = piece := by
  obtain ⟨e, inEvents, defined⟩ := exists_event_of_definition member
  obtain ⟨declared, name, dot, inner, grammatical, tokens, meant⟩ := exists_declaration inEvents defined
  rw [Declaration.conjunction_of_event meant defined] at inside
  cases shape : declared.body with
  | docOnly doc =>
    rw [shape] at inside
    cases inside
  | joined terms doc =>
    rw [shape, Body.conjunction, value_of_series] at inside
    obtain ⟨p, written, rfl⟩ := List.mem_map.mp inside
    refine ⟨p, rfl, fun piece member => ?_⟩
    have inBody : piece ∈ declared.body.spelling := by
      rw [shape]
      exact List.mem_append_left _ (subset_spelling_of_series written member)
    have spelled : piece ∈ declared.spelling := by simp [Declaration.spelling, inBody]
    obtain ⟨t, inItem, bare⟩ := exists_token_of_spelling grammatical piece spelled
    exact ⟨t, tokens inItem, bare⟩

theorem body_admitted {source : Source} {d : Declaration} {name dot : Token} {inner : List Token}
    (grammatical : (Item.definition d name inner dot).Grammatical)
    (inside : (Item.definition d name inner dot).tokens ⊆ source.scan.tokens) :
    ∀ piece ∈ d.body.spelling, piece.1.Admits piece.2.toList := by
  intro piece member
  have spelled : piece ∈ d.spelling := by simp [Declaration.spelling, member]
  obtain ⟨t, inTokens, rfl⟩ := exists_token_of_spelling grammatical piece spelled
  exact scan_tokens_admitted source t (inside inTokens)

/-- If a tag occurs at a single path, resolving fails for the first such tag in the text. -/
private theorem resolve_of_solitary {body : Body}
    (admitted : ∀ piece ∈ body.spelling, piece.1.Admits piece.2.toList)
    (single : ∃ tag path, Solitary body.conjunction tag path) :
    ∃ earlier tag later path, body.spelling.filterMap writtenTag? = earlier ++ tag :: later ∧
      Solitary body.conjunction tag path ∧
      (∀ tag' ∈ earlier, ∀ path', ¬ Solitary body.conjunction tag' path') ∧
      CoreferenceSet.resolve body.mentions = .error (.solitaryCoreference (some tag) path.text) := by
  have regular := body.mentions_regular
  cases resolved : CoreferenceSet.resolve body.mentions with
  | ok sets =>
    obtain ⟨tag, path, solitary⟩ := single
    have shared := ((CoreferenceSet.resolve_eq_ok_iff regular).mp resolved).1 tag
    exact absurd solitary ((shared_iff_not_solitary admitted).mp shared path)
  | error cause =>
    obtain ⟨earlier, tag, later, text, order, before, alone, mentioned, rfl⟩ :=
      CoreferenceSet.resolve_eq_error regular resolved
    have solitary : ∃ path, Solitary body.conjunction tag path := by
      by_contra none
      push Not at none
      exact alone ((shared_iff_not_solitary admitted).mpr none)
    obtain ⟨path, solitary⟩ := solitary
    obtain ⟨path', occurs, rfl⟩ := mentioned_iff_occurs.mp mentioned
    obtain rfl : path' = path := solitary.2 path' occurs
    rw [tags_of_body] at order
    exact ⟨earlier, tag, later, path', order, solitary, fun tag' member =>
      (shared_iff_not_solitary admitted).mp (before tag' member), rfl⟩

/-- A definition at the front of the tokens is refused if a tag of it occurs at a single path, for
the first such tag in its text, and is read otherwise. -/
theorem run_definition (fault : Option Error) (after : List Token) {d : Declaration}
    {name dot : Token} {inner : List Token}
    (grammatical : (Item.definition d name inner dot).Grammatical) (supported : d.Supported)
    (admitted : ∀ piece ∈ d.body.spelling, piece.1.Admits piece.2.toList) :
    ((∀ tag path, ¬ Solitary d.body.conjunction tag path) →
      ∃ e, d.event = .ok e ∧
        (Reader.run fault .idle ((Item.definition d name inner dot).tokens ++ after)).events =
          e :: (Reader.run fault .idle after).events) ∧
    ((∃ tag path, Solitary d.body.conjunction tag path) →
      (Reader.run fault .idle ((Item.definition d name inner dot).tokens ++ after)).events = [] ∧
      ∃ earlier tag later path,
        (significant inner).filterMap writtenTag? = earlier ++ tag :: later ∧
        Solitary d.body.conjunction tag path ∧
        (∀ tag' ∈ earlier, ∀ path', ¬ Solitary d.body.conjunction tag' path') ∧
        (Reader.run fault .idle ((Item.definition d name inner dot).tokens ++ after)).error =
          some ((Error.onLine (.solitaryCoreference (some tag) path.text) dot.line).withIdentifier
            d.identifier)) := by
  have found := first_item_complete grammatical after
  have event : d.event = (CoreferenceSet.resolve d.body.mentions).map d.defined :=
    Declaration.event_of_supported supported
  constructor
  · intro none
    have shared : ∀ tag, Mention.Shared d.body.mentions tag := fun tag =>
      (shared_iff_not_solitary admitted).mpr (none tag)
    have resolved := (CoreferenceSet.resolve_eq_ok_iff d.body.mentions_regular).mpr ⟨shared, rfl⟩
    rw [resolved] at event
    have read := run_first_item fault found event
    exact ⟨_, event, by rw [read]⟩
  · intro single
    obtain ⟨earlier, tag, later, path, order, solitary, first, resolved⟩ :=
      resolve_of_solitary admitted single
    rw [resolved] at event
    have read := run_first_item_error fault found event
    obtain ⟨-, -, inside⟩ := spelled_definition grammatical.1 grammatical.2.1 grammatical.2.2
    rw [read]
    refine ⟨rfl, earlier, tag, later, path, ?_, solitary, first, rfl⟩
    rw [inside, List.filterMap_append, tags_of_head, List.nil_append, order]

/-- Coreferences are sound and complete. The sets of every definition that is read are those of the
tags and the difference lists in its tree; and a grammatical definition that has a type if it needs
one is refused if and only if a tag of it occurs at a single path. The error names the first such
tag in the text, and its path. -/
theorem coreferences_sound_and_complete (source : Source) :
    (∀ (options : ReadOptions), ∀ d ∈ (source.read options).definitions,
      ∃ tagged untagged, d.coreferences = tagged ++ untagged ∧
        SetsOf d.conjunction tagged untagged) ∧
    ∀ (before after inner : List Token) (d : Declaration) (name dot : Token),
      source.scan.tokens = before ++ (Item.definition d name inner dot).tokens ++ after →
      (Reader.run none .idle before).error = none →
      (Item.definition d name inner dot).Grammatical → d.Supported →
      ((∀ tag path, ¬ Solitary d.body.conjunction tag path) →
        ∃ e, d.event = .ok e ∧ source.readAll.events =
          (Reader.run none .idle before).events ++
            e :: (Reader.run source.scan.error .idle after).events) ∧
      ((∃ tag path, Solitary d.body.conjunction tag path) →
        source.readAll.events = (Reader.run none .idle before).events ∧
        ∃ earlier tag later path,
          (significant inner).filterMap writtenTag? = earlier ++ tag :: later ∧
          Solitary d.body.conjunction tag path ∧
          (∀ tag' ∈ earlier, ∀ path', ¬ Solitary d.body.conjunction tag' path') ∧
          source.readAll.error = some
            { cause := .solitaryCoreference (some tag) path.text, line := some dot.line
              source := none, identifier := some d.identifier }) := by
  refine ⟨fun options d member => ?_, ?_⟩
  · obtain ⟨e, inEvents, defined⟩ := exists_event_of_definition member
    obtain ⟨declared, name, dot, inner, grammatical, inside, meant⟩ :=
      exists_declaration inEvents defined
    obtain ⟨sets, resolved, rfl⟩ := Declaration.definition_of_event meant defined
    obtain ⟨shared, rfl⟩ :=
      (CoreferenceSet.resolve_eq_ok_iff declared.body.mentions_regular).mp resolved
    exact sets_of_mentions (body_admitted grammatical inside) shared
  · intro before after inner d name dot shape whole grammatical supported
    have inside : (Item.definition d name inner dot).tokens ⊆ source.scan.tokens := by
      rw [shape]
      exact List.subset_append_of_subset_left _ (List.subset_append_right ..)
    have admitted := body_admitted grammatical inside
    obtain ⟨accepted, refused⟩ := run_definition source.scan.error after grammatical supported admitted
    rw [Source.readAll, shape, List.append_assoc, run_append _ _ _ whole]
    refine ⟨fun none => ?_, fun single => ?_⟩
    · obtain ⟨e, event, events⟩ := accepted none
      exact ⟨e, event, congrArg _ events⟩
    · obtain ⟨events, earlier, tag, later, path, order, solitary, first, error⟩ := refused single
      refine ⟨?_, earlier, tag, later, path, order, solitary, first, error⟩
      rw [Outcome.followedBy, events, List.append_nil]

/-- The tag of `a := b & #1.` stands alone at the top; in `a := b & #1 & [ X #1 ].` it is shared. -/
theorem coreferences_sound_and_complete_at_top :
    (∃ d ∈ ((Source.ofText "a := b & #1 & [ X #1 ].").read .plain).definitions,
      ∃ tagged untagged, d.coreferences = tagged ++ untagged ∧
        SetsOf d.conjunction tagged untagged) ∧
    Solitary [.named "b", .coreference (some "1") none] "1" [] ∧
    ∃ tag path, Solitary [.named "b", .coreference (some "1") none] tag path ∧
      (Source.ofText "a := b & #1.").readAll.error = some
        { cause := .solitaryCoreference (some tag) path.text, line := some 1
          source := none, identifier := some "a" } := by
  have solitary : Solitary [.named "b", .coreference (some "1") none] "1" [] := by
    have all : Conjunction.occurrences [.named "b", .coreference (some "1") none] = [("1", [])] := rfl
    rw [Solitary, all]
    exact ⟨List.mem_singleton_self _, fun other member => by simpa using member⟩
  refine ⟨?_, solitary, ?_⟩
  · have one : ((Source.ofText "a := b & #1 & [ X #1 ].").read .plain).definitions.length = 1 := by
      decide +kernel
    obtain ⟨d, only⟩ := List.length_eq_one_iff.mp one
    have member := only ▸ List.mem_singleton_self d
    exact ⟨d, member, (coreferences_sound_and_complete _).1 .plain d member⟩
  · let tokens : List Token :=
      [ ⟨.definitionOperator, ":=", 1, 1⟩, ⟨.identifier, "b", 1, 1⟩, ⟨.ampersand, "&", 1, 1⟩
      , ⟨.coreference, "#1", 1, 1⟩ ]
    let d : Declaration :=
      { identifier := "a", head := .definition false none
        body := .joined ⟨.atom .name "b" none, [.atom .coreference "#1" none]⟩ none }
    have read := (coreferences_sound_and_complete (Source.ofText "a := b & #1.")).2 [] [] tokens d
      ⟨.identifier, "a", 1, 1⟩ ⟨.dot, ".", 1, 1⟩ (by decide +kernel) rfl ⟨rfl, rfl, by decide +kernel⟩
      (fun _ => ⟨.named "b", List.mem_cons_self .., rfl⟩)
    obtain ⟨-, earlier, tag, later, path, -, alone, -, error⟩ := read.2 ⟨"1", [], solitary⟩
    exact ⟨tag, path, alone, error⟩

end TypeDescription
