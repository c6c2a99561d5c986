import Mathlib.Data.List.Forall2
import Mathlib.Data.List.Induction
import TypeDescription.Coreference.Tracker
import TypeDescription.Proofs.Sharing

/-!
What a tracker makes of its history. Each record changes one of its lists at one place, so what it
holds is known from all that was recorded: the tags in the order of their first occurrences, the
paths of each in the order of theirs, and the paths of each record without a tag. These are the sets
that a definition is resolved with, and they are resolved unless one of them is solitary.
-/

namespace TypeDescription

/-! ## First occurrences -/

/-- The elements of a sequence, each of them once, in the order in which they first occur. -/
structure FirstOccurrences [DecidableEq α] (all firsts : List α) : Prop where
  mem_iff : ∀ a, a ∈ firsts ↔ a ∈ all
  inOrder : firsts.Pairwise fun a b => all.idxOf a < all.idxOf b

section

variable [DecidableEq α]

theorem FirstOccurrences.add_new {all firsts : List α} (occur : FirstOccurrences all firsts) (a : α) :
    FirstOccurrences (all ++ [a]) (addNew firsts a) := by
  have kept : firsts.Pairwise fun b c => (all ++ [a]).idxOf b < (all ++ [a]).idxOf c := by
    refine occur.inOrder.imp_of_mem fun inB inC before => ?_
    rwa [List.idxOf_append_of_mem ((occur.mem_iff _).mp inB),
      List.idxOf_append_of_mem ((occur.mem_iff _).mp inC)]
  unfold addNew
  split
  · next known =>
    refine ⟨fun b => ?_, kept⟩
    rw [List.mem_append, List.mem_singleton, occur.mem_iff]
    exact ⟨.inl, fun held => held.elim id fun same => same ▸ (occur.mem_iff a).mp known⟩
  · next unknown =>
    refine ⟨fun b => by simp [occur.mem_iff],
      List.pairwise_append.mpr ⟨kept, List.pairwise_singleton _ _, ?_⟩⟩
    intro b inB c inC
    obtain rfl := List.mem_singleton.mp inC
    have absent : c ∉ all := mt (occur.mem_iff c).mpr unknown
    have held := (occur.mem_iff b).mp inB
    rw [List.idxOf_append_of_mem held, List.idxOf_append_of_notMem absent]
    exact Nat.lt_of_lt_of_le (List.idxOf_lt_length_of_mem held) (Nat.le_add_right _ _)

theorem erase_dups_concat (l : List α) (a : α) : (l ++ [a]).eraseDups = addNew l.eraseDups a := by
  rw [List.eraseDups_append, addNew]
  by_cases known : a ∈ l
  · simp [List.removeAll, known]
  · simp [List.removeAll, known, List.eraseDups_cons]

/-- To add elements one after the other is to erase the repetitions. -/
theorem foldl_add_new (l : List α) : l.foldl addNew [] = l.eraseDups := by
  induction l using List.reverseRecOn with
  | nil => rfl
  | append_singleton l a ih => rw [List.foldl_append, ih, erase_dups_concat, List.foldl_cons, List.foldl_nil]

theorem first_occurrences_eraseDups (l : List α) : FirstOccurrences l l.eraseDups := by
  induction l using List.reverseRecOn with
  | nil => exact ⟨fun a => Iff.rfl, List.Pairwise.nil⟩
  | append_singleton l a ih =>
    rw [erase_dups_concat]
    exact ih.add_new a

end

/-! ## What a tracker holds -/

namespace CoreferenceTracker

/-- Adding a path changes the paths of one tag, which is there afterwards. -/
theorem add_path_map {tags : List String} (nodup : tags.Nodup) (pathsOf : String → List String) {tag : String}
    (fresh : tag ∉ tags → pathsOf tag = []) (path : String) :
    addPath tag path (tags.map fun known => (known, pathsOf known)) =
      (addNew tags tag).map fun known =>
        (known, if known = tag then addNew (pathsOf known) path else pathsOf known) := by
  induction tags with
  | nil =>
    have none : pathsOf tag = [] := fresh List.not_mem_nil
    simp [addPath, addNew, none]
  | cons first rest ih =>
    obtain ⟨absent, nodup⟩ := List.nodup_cons.mp nodup
    by_cases same : first = tag
    · subst same
      have later : rest.map (fun known =>
          (known, if known = first then addNew (pathsOf known) path else pathsOf known)) =
            rest.map fun known => (known, pathsOf known) := by
        refine List.map_congr_left fun known member => ?_
        have other : known ≠ first := fun same => absent (same ▸ member)
        rw [if_neg other]
      rw [addNew, if_pos List.mem_cons_self, List.map_cons, List.map_cons, later, addPath, if_pos rfl,
        if_pos rfl]
    · have shape : addNew (first :: rest) tag = first :: addNew rest tag := by
        by_cases known : tag ∈ rest <;> simp [addNew, known, Ne.symm same]
      have fresh' : tag ∉ rest → pathsOf tag = [] := fun absent =>
        fresh fun member => (List.mem_cons.mp member).elim (fun same' => same same'.symm) absent
      rw [shape, List.map_cons, List.map_cons, addPath, if_neg same, if_neg same, ih nodup fresh']

theorem of_mentions_concat (mentions : List Mention) (m : Mention) :
    ofMentions (mentions ++ [m]) = (ofMentions mentions).take m := by
  rw [ofMentions, List.foldl_append]
  rfl

/-- The tags that were recorded, each with its paths. -/
theorem tagged_of_mentions (mentions : List Mention) :
    (ofMentions mentions).tagged =
      (mentions.filterMap Mention.tag?).eraseDups.map fun tag =>
        (tag, (mentions.filterMap (Mention.pathOf? tag)).eraseDups) := by
  induction mentions using List.reverseRecOn with
  | nil => rfl
  | append_singleton mentions m ih =>
    rw [of_mentions_concat]
    cases m with
    | together paths =>
      simpa [take, recordSet, List.filterMap_cons, Mention.tag?, Mention.pathOf?] using ih
    | single tag path =>
      cases tag with
      | none => simpa [take, record, List.filterMap_cons, Mention.tag?, Mention.pathOf?] using ih
      | some tag =>
        have fresh : tag ∉ (mentions.filterMap Mention.tag?).eraseDups →
            (mentions.filterMap (Mention.pathOf? tag)).eraseDups = [] := by
          intro absent
          have none : mentions.filterMap (Mention.pathOf? tag) = [] := by
            refine List.eq_nil_iff_forall_not_mem.mpr fun path member => absent (List.mem_eraseDups.mpr ?_)
            exact Mention.mem_tags_iff.mpr ⟨path, Mention.mem_paths_iff.mp member⟩
          rw [none, List.eraseDups_nil]
        have paths (known : String) :
            ((mentions ++ [Mention.single (some tag) path]).filterMap (Mention.pathOf? known)).eraseDups =
              if known = tag then addNew (mentions.filterMap (Mention.pathOf? known)).eraseDups path
              else (mentions.filterMap (Mention.pathOf? known)).eraseDups := by
          rw [List.filterMap_append]
          by_cases same : known = tag
          · rw [if_pos same, ← erase_dups_concat]
            simp [Mention.pathOf?, same]
          · rw [if_neg same]
            simp [Mention.pathOf?, Ne.symm same]
        have tags : (mentions ++ [Mention.single (some tag) path]).filterMap Mention.tag? =
            mentions.filterMap Mention.tag? ++ [tag] := by
          rw [List.filterMap_append]
          rfl
        rw [take, record, ih, add_path_map (nodup_eraseDups _) _ fresh, tags, erase_dups_concat]
        simp only [paths]

theorem untagged_of_mentions (mentions : List Mention) :
    (ofMentions mentions).untagged = mentions.filterMap Mention.untagged? := by
  induction mentions using List.reverseRecOn with
  | nil => rfl
  | append_singleton mentions m ih =>
    rw [of_mentions_concat, List.filterMap_append, ← ih]
    cases m with
    | together paths => simp [take, recordSet, Mention.untagged?, foldl_add_new]
    | single tag path => cases tag <;> simp [take, record, Mention.untagged?]

/-- What was recorded in turn is what can be gathered from all mentions at the end. -/
theorem sets_of_mentions (mentions : List Mention) :
    (ofMentions mentions).sets = CoreferenceSet.ofMentions mentions := by
  rw [sets, tagged_of_mentions, untagged_of_mentions, CoreferenceSet.ofMentions, List.map_map]
  rfl

/-! ## Resolving -/

theorem checked_eq (set : CoreferenceSet) :
    checked set =
      if set.isSolitary then .error (.solitaryCoreference set.tag (set.paths.headD "")) else .ok set := by
  obtain ⟨tag, _ | ⟨path, _ | ⟨other, paths⟩⟩⟩ := set <;> rfl

/-- The first solitary set is the fault. -/
theorem mapM_checked (sets : List CoreferenceSet) :
    sets.mapM checked =
      match sets.find? CoreferenceSet.isSolitary with
      | some set => .error (.solitaryCoreference set.tag (set.paths.headD ""))
      | none => .ok sets := by
  induction sets with
  | nil => rfl
  | cons set rest ih =>
    rw [List.mapM_cons, ih, checked_eq, List.find?_cons]
    cases set.isSolitary with
    | true => rfl
    | false => cases rest.find? CoreferenceSet.isSolitary <;> rfl

/-- A definition is resolved as if its mentions had been recorded in turn. -/
theorem resolve_of_mentions (mentions : List Mention) :
    (ofMentions mentions).resolve = CoreferenceSet.resolve mentions := by
  rw [resolve, sets_of_mentions, mapM_checked]
  rfl

end CoreferenceTracker

/-! ## Histories -/

/-- The paths of a mention that has no tag. -/
def Mention.pathsApart? : Mention → Option (List String)
  | .single (some _) _ => none
  | .single none path => some [path]
  | .together paths => some paths

/-- The sets that a history makes, solitary ones included: one for each tag, in the order of their first
records, and then one for each record without a tag. Each has the paths recorded for it, in the order of
their first records. -/
structure MadeOf (history : List Mention) (tagged untagged : List CoreferenceSet) : Prop where
  tagged : ∃ tags, FirstOccurrences (history.filterMap Mention.tag?) tags ∧
    List.Forall₂ (fun tag set => set.tag = some tag ∧
      FirstOccurrences (history.filterMap (Mention.pathOf? tag)) set.paths) tags tagged
  untagged : List.Forall₂ (fun paths set => set.tag = none ∧ FirstOccurrences paths set.paths)
    (history.filterMap Mention.pathsApart?) untagged

/-- Nothing that was recorded stands alone: every tag has two paths, no record of a single path lacks its
tag, and every set has two paths. -/
structure SharesAll (history : List Mention) : Prop where
  tags : ∀ tag, Mention.Shared history tag
  tagGiven : ∀ path, .single none path ∉ history
  sets : ∀ paths, .together paths ∈ history → ∃ a ∈ paths, ∃ b ∈ paths, b ≠ a

theorem untagged_eq_map (history : List Mention) :
    history.filterMap Mention.untagged? = (history.filterMap Mention.pathsApart?).map List.eraseDups := by
  rw [List.map_filterMap]
  refine List.filterMap_congr fun m _ => ?_
  obtain ⟨_ | tag, path⟩ | paths := m <;> rfl

/-- The sets that are gathered from all mentions are made of them. -/
theorem made_of_mentions (history : List Mention) :
    ∃ tagged untagged, CoreferenceSet.ofMentions history = tagged ++ untagged ∧
      MadeOf history tagged untagged := by
  refine ⟨_, _, rfl, ⟨_, first_occurrences_eraseDups _, ?_⟩, ?_⟩
  · rw [List.forall₂_map_right_iff, List.forall₂_same]
    exact fun tag _ => ⟨rfl, first_occurrences_eraseDups _⟩
  · rw [untagged_eq_map, List.map_map, List.forall₂_map_right_iff, List.forall₂_same]
    exact fun paths _ => ⟨rfl, first_occurrences_eraseDups _⟩

/-- No set is solitary exactly if nothing that was recorded stands alone. -/
theorem none_solitary_iff (history : List Mention) :
    (∀ set ∈ CoreferenceSet.ofMentions history, set.isSolitary = false) ↔ SharesAll history := by
  have several (paths : List String) :
      CoreferenceSet.isSolitary { tag := none, paths := paths.eraseDups } = false ↔
        ∃ a ∈ paths, ∃ b ∈ paths, b ≠ a := by
    rw [CoreferenceSet.isSolitary, decide_eq_false_iff_not, Nat.not_lt]
    exact two_le_length_eraseDups_iff
  have apart : (∀ set ∈ (history.filterMap Mention.untagged?).map fun paths => { tag := none, paths },
      CoreferenceSet.isSolitary set = false) ↔
        ∀ paths ∈ history.filterMap Mention.pathsApart?, ∃ a ∈ paths, ∃ b ∈ paths, b ≠ a := by
    rw [untagged_eq_map, List.map_map, List.forall_mem_map]
    exact forall₂_congr fun paths _ => several paths
  rw [CoreferenceSet.ofMentions, List.forall_mem_append, apart]
  constructor
  · rintro ⟨tagged, apart⟩
    refine ⟨fun tag path mentioned => ?_, fun path member => ?_, fun paths member => ?_⟩
    · have inside : tag ∈ (history.filterMap Mention.tag?).eraseDups :=
        List.mem_eraseDups.mpr (Mention.mem_tags_iff.mpr ⟨path, mentioned⟩)
      have shared := mt (CoreferenceSet.is_solitary_of_tag_iff mentioned).mpr
        (Bool.not_eq_true _ ▸ tagged _ (List.mem_map_of_mem inside))
      exact Classical.not_not.mp shared path mentioned
    · obtain ⟨a, inA, b, inB, differ⟩ := apart [path] (List.mem_filterMap.mpr ⟨_, member, rfl⟩)
      exact differ ((List.mem_singleton.mp inB).trans (List.mem_singleton.mp inA).symm)
    · exact apart paths (List.mem_filterMap.mpr ⟨_, member, rfl⟩)
  · intro shares
    refine ⟨List.forall_mem_map.mpr fun tag inside => ?_, fun paths inside => ?_⟩
    · obtain ⟨path, mentioned⟩ := Mention.mem_tags_iff.mp (List.mem_eraseDups.mp inside)
      exact Bool.eq_false_iff.mpr fun solitary =>
        (CoreferenceSet.is_solitary_of_tag_iff mentioned).mp solitary (shares.tags tag)
    · obtain ⟨m, member, found⟩ := List.mem_filterMap.mp inside
      obtain ⟨_ | tag, path⟩ | paths' := m
      · exact absurd member (shares.tagGiven path)
      · cases found
      · cases found
        exact shares.sets paths member

namespace CoreferenceSet

theorem several_iff {set : CoreferenceSet} : set.isSolitary = false ↔ 2 ≤ set.paths.length := by
  rw [isSolitary, decide_eq_false_iff_not, Nat.not_lt]

theorem resolve_succeeds_iff {history : List Mention} :
    (∃ sets, resolve history = .ok sets) ↔ ∀ set ∈ ofMentions history, set.isSolitary = false := by
  rw [resolve]
  cases found : (ofMentions history).find? isSolitary with
  | none => simpa using List.find?_eq_none.mp found
  | some set =>
    have solitary := List.find?_some found
    have member := List.mem_of_find?_eq_some found
    simp only [reduceCtorEq, exists_false, false_iff]
    exact fun all => by simp [all set member] at solitary

theorem eq_of_resolve {history : List Mention} {sets : List CoreferenceSet}
    (succeeds : resolve history = .ok sets) : sets = ofMentions history := by
  rw [resolve] at succeeds
  split at succeeds
  · cases succeeds
  · cases succeeds
    rfl

/-- The fault is the first set that has less than two paths. -/
theorem resolve_fails_iff {history : List Mention} {cause : Cause} :
    resolve history = .error cause ↔
      ∃ before set after path, ofMentions history = before ++ set :: after ∧
        (∀ earlier ∈ before, 2 ≤ earlier.paths.length) ∧
        (set.paths = [path] ∨ set.paths = [] ∧ path = "") ∧
        cause = .solitaryCoreference set.tag path := by
  rw [resolve]
  constructor
  · intro fails
    split at fails
    · next set found =>
      cases fails
      obtain ⟨solitary, before, after, split, others⟩ := List.find?_eq_some_iff_append.mp found
      refine ⟨before, set, after, set.paths.headD "", split, fun earlier member => ?_, ?_, rfl⟩
      · exact several_iff.mp (by simpa using others earlier member)
      · obtain ⟨tag, _ | ⟨path, _ | ⟨other, paths⟩⟩⟩ := set
        · exact .inr ⟨rfl, rfl⟩
        · exact .inl rfl
        · cases solitary
    · cases fails
  · rintro ⟨before, set, after, path, split, others, only, rfl⟩
    have found : (ofMentions history).find? isSolitary = some set := by
      refine List.find?_eq_some_iff_append.mpr ⟨?_, before, after, split, fun earlier member => ?_⟩
      · rcases only with alone | ⟨none, -⟩
        · simp [isSolitary, alone]
        · simp [isSolitary, none]
      · simpa using several_iff.mpr (others earlier member)
    rw [found]
    rcases only with alone | ⟨none, rfl⟩
    · simp [alone]
    · simp [none]

end CoreferenceSet

/-- Recording resolves every history exactly. What is recorded in turn is resolved if nothing of it stands
alone; then there is one set for each tag, in the order of their first records, with the paths of that tag
in the order of theirs, and after them one for each record without a tag. If it is not resolved, the first
of these sets that has less than two paths is the fault, with its tag and its only path, or no path. A
definition is resolved in this way. -/
theorem records_resolved_exactly (history : List Mention) :
    let tracker := CoreferenceTracker.ofMentions history
    CoreferenceSet.resolve history = tracker.resolve ∧
    ((∃ sets, tracker.resolve = .ok sets) ↔ SharesAll history) ∧
    ∃ tagged untagged, MadeOf history tagged untagged ∧
      (∀ sets, tracker.resolve = .ok sets → sets = tagged ++ untagged) ∧
      ∀ cause, tracker.resolve = .error cause ↔
        ∃ before set after path, tagged ++ untagged = before ++ set :: after ∧
          (∀ earlier ∈ before, 2 ≤ earlier.paths.length) ∧
          (set.paths = [path] ∨ set.paths = [] ∧ path = "") ∧
          cause = .solitaryCoreference set.tag path := by
  intro tracker
  have resolved : tracker.resolve = CoreferenceSet.resolve history :=
    CoreferenceTracker.resolve_of_mentions history
  obtain ⟨tagged, untagged, shape, made⟩ := made_of_mentions history
  rw [resolved, CoreferenceSet.resolve_succeeds_iff, none_solitary_iff]
  refine ⟨rfl, Iff.rfl, tagged, untagged, made, fun sets succeeds => ?_, fun cause => ?_⟩
  · exact (CoreferenceSet.eq_of_resolve succeeds).trans shape
  · rw [CoreferenceSet.resolve_fails_iff, shape]

end TypeDescription
