import Mathlib.Data.List.Forall2
import TypeDescription.Proofs.RoundTrip

/-!
Coreference sets of definitions that are written again. The sets of a definition, and the paths
within a set, are listed as its text mentions them. The new text has the order of the tree, which
is another one where a feature is taken up again after others. So the sets stay the same, but their
list may be rearranged; it is not if everything was written where the tree ended.
-/

namespace TypeDescription

/-! ## Mentions in another order -/

namespace CoreferenceSet

/-- The other list holds the same sets: both the sets and the paths within them may be listed in
another order. -/
def Rearranged (sets others : List CoreferenceSet) : Prop :=
  ∃ middle : List CoreferenceSet,
    List.Forall₂ (fun set other => other.tag = set.tag ∧ other.paths.Perm set.paths) sets middle ∧
      middle.Perm others

private theorem eraseDups_perm [BEq α] [LawfulBEq α] {l l' : List α} (perm : l.Perm l') :
    l.eraseDups.Perm l'.eraseDups := by
  rw [List.perm_ext_iff_of_nodup (nodup_eraseDups l) (nodup_eraseDups l')]
  intro a
  rw [List.mem_eraseDups, List.mem_eraseDups, perm.mem_iff]

/-- The order of the mentions matters for nothing but the order of the sets and of their paths. -/
theorem rearranged_of_mentions {mentions others : List Mention} (perm : mentions.Perm others) :
    Rearranged (ofMentions mentions) (ofMentions others) := by
  let tags := (mentions.filterMap Mention.tag?).eraseDups
  let untagged := (mentions.filterMap Mention.untagged?).map fun paths =>
    ({ tag := none, paths } : CoreferenceSet)
  refine ⟨tags.map (ofTag others) ++ untagged, List.rel_append ?_ ?_, List.Perm.append ?_ ?_⟩
  · rw [List.forall₂_map_left_iff, List.forall₂_map_right_iff, List.forall₂_same]
    exact fun tag _ => ⟨rfl, eraseDups_perm (perm.symm.filterMap _)⟩
  · rw [List.forall₂_same]
    exact fun set _ => ⟨rfl, List.Perm.refl _⟩
  · exact (eraseDups_perm (perm.filterMap _)).map _
  · exact (perm.filterMap _).map _

end CoreferenceSet

/-! ## Definitions -/

/-- What is known of a definition from its declaration. -/
private theorem definition_of_event {declared : Declaration} {d : Definition}
    (meant : declared.event = .ok (.definition d)) :
    d.conjunction = declared.body.conjunction ∧
      d.coreferences = CoreferenceSet.ofMentions declared.body.mentions := by
  obtain ⟨-, sets, resolved, same⟩ := Declaration.event_eq_ok_iff.mp meant
  obtain ⟨-, rfl⟩ := (CoreferenceSet.resolve_eq_ok_iff declared.body.mentions_regular).mp resolved
  obtain ⟨identifier, head, body⟩ := declared
  rcases head with _ | ⟨old, _ | ⟨side, patterns⟩⟩
  all_goals
    cases same
  · exact ⟨rfl, rfl⟩
  · exact ⟨rfl, rfl⟩

/-- The sets of a definition that is written in order are listed in the order of its tree. -/
private theorem coreferences_of_in_order {declared : Declaration} {d : Definition}
    (meant : declared.event = .ok (.definition d)) (inOrder : declared.body.InOrder) :
    d.coreferences = CoreferenceSet.ofMentions d.conjunction.mentions := by
  obtain ⟨value, coreferences⟩ := definition_of_event meant
  rw [coreferences, value, inOrder.mentions_eq]

private theorem Definition.Agrees.eq {d d' : Definition} (agrees : d.Agrees d')
    (coreferences : d'.coreferences = d.coreferences) : d' = d := by
  obtain ⟨identifier, isAddendum, conjunction, doc⟩ := agrees
  cases d
  cases d'
  simp_all

/-- The text of a definition that was read, without quoted symbols, docstrings and affixes in its
source, is read as a single definition that says the same. Its coreference sets are those of the
first, but listed in the order of the tree. The lists are equal exactly if the definition can be
written in order. -/
theorem read_definition_text_coreferences {text : String}
    (plain : ∀ t ∈ (Source.ofText text).scan.tokens,
      t.kind ∉ [TokenKind.quotedSymbol, .docstring, .affixPattern])
    (options again : ReadOptions) {d : Definition}
    (member : .definition d ∈ ((Source.ofText text).read options).events) :
    ∃ d' : Definition, ((Source.ofText d.text).read again).items = [.ok (.definition d')] ∧
      d.Agrees d' ∧ CoreferenceSet.Rearranged d.coreferences d'.coreferences ∧
      d'.coreferences = CoreferenceSet.ofMentions d.conjunction.mentions ∧
      (d'.coreferences = d.coreferences ↔
        ∃ declared : Declaration, declared.event = .ok (.definition d) ∧ declared.body.InOrder) := by
  obtain ⟨declared, name, dot, inner, grammatical, inside, meant⟩ :=
    exists_declaration (mem_read_all_events member) rfl
  have source : ∀ piece ∈ declared.spelling, piece.1 ≠ .docstring ∧ Rewritable piece := by
    intro piece inSpelling
    obtain ⟨t, inItem, rfl⟩ := exists_token_of_spelling grammatical piece inSpelling
    have kind := plain t (inside inItem)
    simp only [List.mem_cons, List.not_mem_nil, or_false, not_or] at kind
    obtain ⟨quoted, doc, affix⟩ := kind
    exact ⟨doc, token_rewritable (inside inItem) (absurd · doc) (absurd · quoted) (absurd · affix)⟩
  obtain ⟨value, coreferences⟩ := definition_of_event meant
  have tails : ∀ place ∈ d.conjunction.placed, place.2.plainTail = true := by
    rw [value]
    exact Body.plain_tails fun piece inBody =>
      (source piece (by simp [Declaration.spelling, inBody])).1
  obtain ⟨e', declared', items, agrees, meant', inOrder, value'⟩ :=
    read_again (fun piece inSpelling => (source piece inSpelling).2) meant rfl tails rfl again
  obtain ⟨d', rfl⟩ : ∃ d', e' = .definition d' := by
    cases e' with
    | definition d' => exact ⟨d', rfl⟩
    | _ => cases agrees
  obtain ⟨-, coreferences'⟩ := definition_of_event meant'
  have ordered := coreferences_of_in_order meant' inOrder
  rw [agrees.conjunction] at ordered
  refine ⟨d', items, agrees, ?_, ordered, fun same => ?_, ?_⟩
  · rw [coreferences, coreferences']
    -- Both bodies mention what stands in the one tree.
    have mentions := declared'.body.mentions_perm
    rw [value'] at mentions
    exact CoreferenceSet.rearranged_of_mentions (declared.body.mentions_perm.symm.trans mentions)
  · obtain rfl := agrees.eq same
    exact ⟨declared', meant', inOrder⟩
  · rintro ⟨other, meantOther, inOrderOther⟩
    rw [ordered, coreferences_of_in_order meantOther inOrderOther]

/-- The text and the sets of an event that is a definition without affixes. -/
private def setsOf? : Event → Option (String × List CoreferenceSet)
  | .definition d => some (d.text, d.coreferences)
  | _ => none

private theorem sets_of_eq_some {e : Event} {text : String} {sets : List CoreferenceSet}
    (found : setsOf? e = some (text, sets)) :
    ∃ d : Definition, e = .definition d ∧ d.text = text ∧ d.coreferences = sets := by
  cases e with
  | definition d =>
    cases found
    exact ⟨d, rfl, rfl, rfl⟩
  | _ => cases found

/-- A dotted list and a difference list that are written in order. -/
theorem read_definition_text_coreferences_of_lists :
    ∃ d d' : Definition,
      .definition d ∈ ((Source.ofText
        "a := b & [ f.g #x, h < #x, c . #y >, l <! m, #y !> ].").read .plain).events ∧
      d.text = "a := b & [ F [ G #x ], H < #x, c . #y >, L <! m, #y !> ]." ∧
      ((Source.ofText d.text).read .plain).items = [.ok (.definition d')] ∧
      d.coreferences =
        [ { tag := some "x", paths := ["F.G", "H.FIRST"] }
        , { tag := some "y", paths := ["H.REST.REST", "L.LIST.REST.FIRST"] }
        , { tag := none, paths := ["L.LIST.REST.REST", "L.LAST"] } ] ∧
      d'.coreferences = d.coreferences := by
  let text := "a := b & [ f.g #x, h < #x, c . #y >, l <! m, #y !> ]."
  have plain : ∀ t ∈ (Source.ofText text).scan.tokens,
      t.kind ∉ [TokenKind.quotedSymbol, .docstring, .affixPattern] := by decide +kernel
  have events : ((Source.ofText text).read .plain).events.map setsOf? =
      [ some ("a := b & [ F [ G #x ], H < #x, c . #y >, L <! m, #y !> ].",
        [ { tag := some "x", paths := ["F.G", "H.FIRST"] }
        , { tag := some "y", paths := ["H.REST.REST", "L.LIST.REST.FIRST"] }
        , { tag := none, paths := ["L.LIST.REST.REST", "L.LAST"] } ]) ] := by decide +kernel
  have ordered : (((Source.ofText text).read .plain).events.all fun e =>
      e.definition?.all fun d => CoreferenceSet.ofMentions d.conjunction.mentions = d.coreferences) =
        true := by decide +kernel
  obtain ⟨e, rest, shape, found, -⟩ := List.map_eq_cons_iff.mp events
  obtain ⟨d, rfl, printed, sets⟩ := sets_of_eq_some found
  have member : .definition d ∈ ((Source.ofText text).read .plain).events := shape ▸ List.mem_cons_self ..
  obtain ⟨d', items, -, -, inTree, -⟩ := read_definition_text_coreferences plain .plain .plain member
  have same := List.all_eq_true.mp ordered _ member
  exact ⟨d, d', member, printed, items, sets, inTree.trans (by simpa [Event.definition?] using same)⟩

/-- A feature is taken up again after another one, and its tag comes second. In the new text the two
stand together, so that the tag comes first. -/
theorem read_definition_text_coreferences_rearranged :
    ∃ d d' : Definition,
      (∀ t ∈ (Source.ofText "a := b & [ F c, G #1, F #1 ].").scan.tokens,
        t.kind ∉ [TokenKind.quotedSymbol, .docstring, .affixMarker, .affixPattern]) ∧
      .definition d ∈ ((Source.ofText "a := b & [ F c, G #1, F #1 ].").read .plain).events ∧
      .definition d' ∈ ((Source.ofText d.text).read .plain).events ∧
      d.coreferences = [{ tag := some "1", paths := ["G", "F"] }] ∧
      d'.coreferences = [{ tag := some "1", paths := ["F", "G"] }] ∧
      (Event.definition d).same (.definition d') = false := by
  let text := "a := b & [ F c, G #1, F #1 ]."
  let printed := "a := b & [ F c & #1, G #1 ]."
  have first : ((Source.ofText text).read .plain).events.map setsOf? =
      [some (printed, [{ tag := some "1", paths := ["G", "F"] }])] := by decide +kernel
  have second : ((Source.ofText printed).read .plain).events.map setsOf? =
      [some (printed, [{ tag := some "1", paths := ["F", "G"] }])] := by decide +kernel
  obtain ⟨e, rest, shape, found, -⟩ := List.map_eq_cons_iff.mp first
  obtain ⟨e', rest', shape', found', -⟩ := List.map_eq_cons_iff.mp second
  obtain ⟨d, rfl, again, sets⟩ := sets_of_eq_some found
  obtain ⟨d', rfl, -, sets'⟩ := sets_of_eq_some found'
  have plain : ∀ t ∈ (Source.ofText text).scan.tokens,
      t.kind ∉ [TokenKind.quotedSymbol, .docstring, .affixMarker, .affixPattern] := by decide +kernel
  refine ⟨d, d', plain, shape ▸ List.mem_cons_self .., ?_, sets, sets', ?_⟩
  · rw [again]
    exact shape' ▸ List.mem_cons_self ..
  · simp [Event.same, Definition.same, sets, sets']

end TypeDescription
