import TypeDescription.Coreference
import TypeDescription.Proofs.Phrases

/-!
When coreferences share. A tag is shared if it is mentioned at two paths that differ; the end of a
difference list always is, since its two paths differ whatever stands around the list. So only a
tag can stand alone, and a definition is refused for the first one that does.
-/

namespace TypeDescription

/-! ## Counting without repetition -/

/-- Without its repetitions a list has two elements if two of its elements differ. -/
theorem two_le_length_eraseDups_iff [BEq α] [LawfulBEq α] {l : List α} :
    2 ≤ l.eraseDups.length ↔ ∃ a ∈ l, ∃ b ∈ l, b ≠ a := by
  cases l with
  | nil => simp
  | cons a rest =>
    rw [List.eraseDups_cons, List.length_cons]
    constructor
    · intro more
      obtain ⟨b, member⟩ := List.exists_mem_of_length_pos (Nat.le_of_succ_le_succ more)
      obtain ⟨inside, other⟩ := List.mem_filter.mp (List.mem_eraseDups.mp member)
      exact ⟨a, List.mem_cons_self .., b, List.mem_cons_of_mem _ inside, by simpa using other⟩
    · rintro ⟨b, inB, c, inC, differ⟩
      -- One of two elements that differ is not the first.
      have other : ∃ d ∈ rest, d ≠ a := by
        rcases List.mem_cons.mp inB with rfl | inB
        · exact ⟨c, (List.mem_cons.mp inC).resolve_left differ, differ⟩
        · by_cases same : b = a
          · subst same
            exact ⟨c, (List.mem_cons.mp inC).resolve_left differ, differ⟩
          · exact ⟨b, inB, same⟩
      obtain ⟨d, inside, other⟩ := other
      have kept : d ∈ (rest.filter fun b => !b == a).eraseDups :=
        List.mem_eraseDups.mpr (List.mem_filter.mpr ⟨inside, by simpa using other⟩)
      exact Nat.succ_le_succ (List.length_pos_of_mem kept)

theorem nodup_eraseDups [BEq α] [LawfulBEq α] (l : List α) : l.eraseDups.Nodup := by
  induction n : l.length using Nat.strongRecOn generalizing l with
  | ind n ih =>
    cases l with
    | nil => exact List.nodup_nil
    | cons a rest =>
      rw [List.eraseDups_cons, List.nodup_cons]
      refine ⟨fun member => ?_, ih _ ?_ _ rfl⟩
      · simpa using (List.mem_filter.mp (List.mem_eraseDups.mp member)).2
      · subst n
        exact Nat.lt_succ_of_le (List.length_filter_le ..)

/-- The first element that satisfies something is no repetition. -/
theorem find_eraseDups [BEq α] [LawfulBEq α] (p : α → Bool) (l : List α) :
    l.eraseDups.find? p = l.find? p := by
  induction length : l.length using Nat.strongRecOn generalizing l with
  | ind n ih =>
    cases l with
    | nil => rfl
    | cons a rest =>
      rw [List.eraseDups_cons, List.find?_cons, List.find?_cons]
      cases here : p a with
      | true => rfl
      | false =>
        have shorter : (rest.filter fun b => !b == a).length < n := by
          rw [← length]
          exact Nat.lt_succ_of_le (List.length_filter_le ..)
        rw [ih _ shorter _ rfl, List.find?_filter]
        refine congrArg (rest.find? ·) (funext fun b => ?_)
        by_cases same : b = a
        · rw [same, here]
          simp
        · simp [same]

/-! ## Tags that are shared -/

namespace Mention

/-- The tag is mentioned at the path. -/
def At (mentions : List Mention) (tag path : String) : Prop := single (some tag) path ∈ mentions

/-- Wherever a tag is mentioned, it is mentioned elsewhere too. -/
def Shared (mentions : List Mention) (tag : String) : Prop :=
  ∀ path, At mentions tag path → ∃ other, other ≠ path ∧ At mentions tag other

/-- What a phrase mentions: tags, and pairs of paths that differ. -/
def Regular : Mention → Prop
  | single tag _ => tag.isSome
  | together paths => ∃ a b, paths = [a, b] ∧ b ≠ a

theorem mem_paths_iff {mentions : List Mention} {tag path : String} :
    path ∈ mentions.filterMap (pathOf? tag) ↔ At mentions tag path := by
  rw [List.mem_filterMap, At]
  constructor
  · rintro ⟨⟨_ | tag', path'⟩ | paths, member, found⟩
    · cases found
    · simp only [pathOf?, Option.ite_none_right_eq_some, Option.some.injEq] at found
      obtain ⟨rfl, rfl⟩ := found
      exact member
    · cases found
  · exact fun member => ⟨_, member, by simp [pathOf?]⟩

theorem mem_tags_iff {mentions : List Mention} {tag : String} :
    tag ∈ mentions.filterMap tag? ↔ ∃ path, At mentions tag path := by
  rw [List.mem_filterMap]
  constructor
  · rintro ⟨⟨tag', path⟩ | paths, member, found⟩
    · cases found
      exact ⟨path, member⟩
    · cases found
  · rintro ⟨path, member⟩
    exact ⟨_, member, rfl⟩

end Mention

namespace CoreferenceSet

open Mention

variable {mentions : List Mention}

/-- The set of a tag. -/
def ofTag (mentions : List Mention) (tag : String) : CoreferenceSet :=
  { tag := some tag, paths := (mentions.filterMap (pathOf? tag)).eraseDups }

/-- The set of a tag is solitary unless the tag is shared. -/
theorem is_solitary_of_tag_iff {tag path : String} (mentioned : At mentions tag path) :
    (ofTag mentions tag).isSolitary = true ↔ ¬ Shared mentions tag := by
  have several : 2 ≤ (ofTag mentions tag).paths.length ↔ Shared mentions tag := by
    rw [ofTag, two_le_length_eraseDups_iff]
    constructor
    · rintro ⟨a, inA, b, inB, differ⟩ path -
      by_cases same : a = path
      · exact ⟨b, same ▸ differ, mem_paths_iff.mp inB⟩
      · exact ⟨a, same, mem_paths_iff.mp inA⟩
    · intro shared
      obtain ⟨other, differ, mentioned'⟩ := shared path mentioned
      exact ⟨path, mem_paths_iff.mpr mentioned, other, mem_paths_iff.mpr mentioned', differ⟩
  rw [isSolitary, decide_eq_true_iff, ← several, Nat.not_le]

/-- A pair of paths that differ is not solitary. -/
private theorem not_solitary_of_untagged (regular : ∀ m ∈ mentions, m.Regular) :
    ∀ paths ∈ mentions.filterMap untagged?,
      isSolitary { tag := none, paths := paths } = false := by
  intro paths member
  obtain ⟨⟨_ | tag, path⟩ | paths', inside, found⟩ := List.mem_filterMap.mp member
  · cases regular _ inside
  · cases found
  · obtain ⟨a, b, rfl, differ⟩ := regular _ inside
    cases found
    have two : 2 ≤ [a, b].eraseDups.length :=
      two_le_length_eraseDups_iff.mpr ⟨a, by simp, b, by simp, differ⟩
    rw [isSolitary, decide_eq_false_iff_not, Nat.not_lt]
    exact two

/-- Only tags can be solitary. -/
private theorem find_solitary (regular : ∀ m ∈ mentions, m.Regular) :
    (ofMentions mentions).find? isSolitary =
      ((mentions.filterMap tag?).eraseDups.map (ofTag mentions)).find? isSolitary := by
  have untagged : ((mentions.filterMap untagged?).map fun paths =>
      ({ tag := none, paths } : CoreferenceSet)).find? isSolitary = none := by
    rw [List.find?_eq_none]
    intro set member
    obtain ⟨paths, inside, rfl⟩ := List.mem_map.mp member
    simp [not_solitary_of_untagged regular paths inside]
  rw [ofMentions, List.find?_append, untagged, Option.or_none]
  rfl

/-- Coreferences are resolved if every tag is shared. -/
theorem resolve_eq_ok_iff (regular : ∀ m ∈ mentions, m.Regular) {sets : List CoreferenceSet} :
    resolve mentions = .ok sets ↔ (∀ tag, Shared mentions tag) ∧ sets = ofMentions mentions := by
  have none_iff : (ofMentions mentions).find? isSolitary = none ↔ ∀ tag, Shared mentions tag := by
    rw [find_solitary regular, List.find?_eq_none]
    constructor
    · intro every tag path mentioned
      have inside : ofTag mentions tag ∈ (mentions.filterMap tag?).eraseDups.map (ofTag mentions) :=
        List.mem_map_of_mem (List.mem_eraseDups.mpr (mem_tags_iff.mpr ⟨path, mentioned⟩))
      have shared := mt (is_solitary_of_tag_iff mentioned).mpr (every _ inside)
      exact Classical.not_not.mp shared path mentioned
    · intro shared set member
      obtain ⟨tag, inside, rfl⟩ := List.mem_map.mp member
      obtain ⟨path, mentioned⟩ := mem_tags_iff.mp (List.mem_eraseDups.mp inside)
      exact fun solitary => (is_solitary_of_tag_iff mentioned).mp solitary (shared tag)
  rw [resolve]
  cases found : (ofMentions mentions).find? isSolitary with
  | none => simp [none_iff.mp found, eq_comm]
  | some set =>
    have alone : ¬ ∀ tag, Shared mentions tag := fun shared => by
      rw [none_iff.mpr shared] at found
      cases found
    simp [alone]

/-- Otherwise the first tag that is not shared is the fault. -/
theorem resolve_eq_error (regular : ∀ m ∈ mentions, m.Regular) {cause : Cause}
    (refused : resolve mentions = .error cause) :
    ∃ earlier tag later path, mentions.filterMap tag? = earlier ++ tag :: later ∧
      (∀ tag' ∈ earlier, Shared mentions tag') ∧ ¬ Shared mentions tag ∧ At mentions tag path ∧
      cause = .solitaryCoreference (some tag) path := by
  have mentioned : ∀ tag ∈ mentions.filterMap tag?, ∃ path, At mentions tag path :=
    fun tag member => mem_tags_iff.mp member
  rw [resolve, find_solitary regular, List.find?_map, find_eraseDups] at refused
  cases found : (mentions.filterMap tag?).find? (isSolitary ∘ ofTag mentions) with
  | none =>
    rw [found] at refused
    cases refused
  | some tag =>
    rw [found] at refused
    cases refused
    obtain ⟨solitary, earlier, later, shape, before⟩ := List.find?_eq_some_iff_append.mp found
    obtain ⟨path, here⟩ := mentioned tag (by rw [shape]; simp)
    have alone := (is_solitary_of_tag_iff here).mp solitary
    have first : ∃ text rest, (ofTag mentions tag).paths = text :: rest := by
      have member : path ∈ (ofTag mentions tag).paths :=
        List.mem_eraseDups.mpr (mem_paths_iff.mpr here)
      exact List.exists_cons_of_ne_nil (List.ne_nil_of_mem member)
    obtain ⟨text, rest, paths⟩ := first
    refine ⟨earlier, tag, later, text, shape, fun tag' member => ?_, alone, ?_, ?_⟩
    · obtain ⟨path', there⟩ := mentioned tag' (by rw [shape]; exact List.mem_append_left _ member)
      have shared := mt (is_solitary_of_tag_iff there).mpr (by simpa using before tag' member)
      exact Classical.not_not.mp shared
    · have member : text ∈ (ofTag mentions tag).paths := by
        rw [paths]
        exact List.mem_cons_self ..
      exact mem_paths_iff.mp (List.mem_eraseDups.mp member)
    · rw [paths]
      rfl

end CoreferenceSet

/-! ## What phrases mention -/

namespace Path

/-- Where two paths part only their ends matter. -/
theorem text_append_inj {here a b : Path} (first : a ≠ []) (second : b ≠ []) :
    (here ++ a).text = (here ++ b).text ↔ a.text = b.text := by
  cases here with
  | nil => rfl
  | cons name here =>
    have some : name :: here ≠ [] := List.cons_ne_nil name here
    rw [text, text, String.intercalate_append_of_ne_nil some first,
      String.intercalate_append_of_ne_nil some second, String.append_right_inj]
    rfl

end Path

/-- The open end of a difference list is at another path than its last feature. -/
theorem text_open_end_ne_last (here : Path) (length : Nat) :
    (here ++ [diffListLast]).text ≠ (here ++ diffListChain :: tailPath length).text := by
  intro same
  have ends := (Path.text_append_inj (List.cons_ne_nil _ _) (List.cons_ne_nil _ _)).mp same
  cases length with
  | zero => exact absurd ends (by decide)
  | succ length =>
    have more : tailPath (length + 1) ≠ [] := by simp [tailPath]
    have chars := congrArg String.toList ends
    rw [Path.text, Path.text, String.intercalate_singleton,
      String.intercalate_cons_of_ne_nil more, String.toList_append, String.toList_append] at chars
    have second := congrArg (·[1]?) chars
    simp [diffListLast, diffListChain] at second

/-- Whatever is mentioned is a tag at a path, or a pair of paths that differ. -/
theorem Phrase.mentions_regular (p : Phrase) : ∀ here, ∀ m ∈ p.mentions here, m.Regular := by
  have series {terms : Series Phrase}
      (ih : terms.All fun p => ∀ here, ∀ m ∈ p.mentions here, m.Regular) (here : Path) :
      ∀ m ∈ mentionsOfSeries here terms, m.Regular := by
    intro m member
    rw [mentions_of_series] at member
    obtain ⟨p, inside, member⟩ := List.mem_flatMap.mp member
    exact ih p inside here m member
  have items {items : List (Series Phrase)}
      (ih : ∀ item ∈ items, item.All fun p => ∀ here, ∀ m ∈ p.mentions here, m.Regular)
      (chain : Path) (index : Nat) : ∀ m ∈ mentionsOfItems chain index items, m.Regular := by
    intro m member
    rw [mentions_of_items] at member
    obtain ⟨⟨item, index'⟩, inside, member⟩ := List.mem_flatMap.mp member
    exact series (ih item (List.fst_mem_of_mem_zipIdx inside)) _ m member
  induction p using Phrase.induct with
  | atom kind text doc =>
    intro here m member
    cases kind <;> simp only [Phrase.mentions, List.not_mem_nil, List.mem_singleton] at member
    subst member
    rfl
  | avm features doc ih =>
    intro here m member
    rw [Phrase.mentions, mentions_of_features] at member
    obtain ⟨⟨names, value⟩, inside, member⟩ := List.mem_flatMap.mp member
    exact series (ih _ inside) _ m member
  | cons parts ending doc ih ihEnding =>
    intro here m member
    rw [Phrase.mentions] at member
    rcases List.mem_append.mp member with member | member
    · exact items ih _ _ m member
    · cases ending with
      | closed => cases member
      | ellipsis => cases member
      | dotted last tail =>
        obtain ⟨ihLast, ihTail⟩ := ihEnding last tail rfl
        rw [Ending.mentions] at member
        rcases List.mem_append.mp member with member | member
        · exact series ihLast _ m member
        · exact series ihTail _ m member
  | diff parts doc ih =>
    intro here m member
    rw [Phrase.mentions] at member
    rcases List.mem_append.mp member with member | member
    · exact items ih _ _ m member
    · obtain rfl := List.mem_singleton.mp member
      exact ⟨_, _, rfl, text_open_end_ne_last here parts.length⟩

theorem Body.mentions_regular (body : Body) : ∀ m ∈ body.mentions, m.Regular := by
  intro m member
  cases body with
  | docOnly doc => cases member
  | joined terms doc =>
    rw [Body.mentions, mentions_of_series] at member
    obtain ⟨p, inside, member⟩ := List.mem_flatMap.mp member
    exact p.mentions_regular [] m member

end TypeDescription
