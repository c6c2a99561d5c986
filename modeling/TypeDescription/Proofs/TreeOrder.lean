import TypeDescription.Proofs.Chains
import TypeDescription.Proofs.Coreferences

/-!
Mentions in the order of a tree. The mentions of a phrase come in the order of its text. The tree of
its value has an order of its own: features stand where they were first given, and what is given to
a feature later on joins what is there. The two orders agree if nothing is ever written anywhere but
at the end of the tree so far.
-/

namespace TypeDescription

/-! ## Mentions in a tree -/

mutual

/-- The mentions in a term that stands at a path, in the order of the tree; those of a difference list
come after those of its items. -/
def Term.mentions (here : Path) : Term → List Mention
  | .type .. => []
  | .coreference none _ => []
  | .coreference (some tag) _ => [.single (some tag) here.text]
  | .avm ⟨features, _⟩ => mentionsInMap here features
  | .cons ⟨⟨features, _⟩, _, _, _⟩ => mentionsInMap here features
  | .diff ⟨⟨features, doc⟩, length⟩ =>
    mentionsInMap here features ++ [.together (DiffList.ends here ⟨⟨features, doc⟩, length⟩)]

/-- The mentions in the features of an AVM. -/
def mentionsInMap (here : Path) : Option (List (String × List Term)) → List Mention
  | some entries => mentionsInEntries here entries
  | none => []

/-- The mentions in entries. -/
def mentionsInEntries (here : Path) : List (String × List Term) → List Mention
  | [] => []
  | (name, value) :: rest => mentionsInTerms (here ++ [name]) value ++ mentionsInEntries here rest

/-- The mentions in the terms of a conjunction. -/
def mentionsInTerms (here : Path) : List Term → List Mention
  | [] => []
  | t :: rest => t.mentions here ++ mentionsInTerms here rest

end

section Functions

variable (here : Path)

theorem mentions_in_terms (c : Conjunction) : mentionsInTerms here c = c.flatMap (Term.mentions here) := by
  induction c with
  | nil => rfl
  | cons t rest ih => rw [mentionsInTerms, ih, List.flatMap_cons]

theorem mentions_in_entries (entries : Features) :
    mentionsInEntries here entries =
      entries.flatMap fun (name, value) => mentionsInTerms (here ++ [name]) value := by
  induction entries with
  | nil => rfl
  | cons entry rest ih =>
    obtain ⟨name, value⟩ := entry
    rw [mentionsInEntries, ih, List.flatMap_cons]

theorem mentions_in_avm (a : Avm) : (Term.avm a).mentions here = mentionsInEntries here a.entries := by
  obtain ⟨_ | entries, doc⟩ := a <;> rfl

theorem mentions_in_cons (l : ConsList) :
    (Term.cons l).mentions here = mentionsInEntries here l.avm.entries := by
  obtain ⟨⟨_ | entries, doc⟩, lastPath, length, terminated⟩ := l <;> rfl

theorem mentions_in_diff (l : DiffList) :
    (Term.diff l).mentions here =
      mentionsInEntries here l.avm.entries ++ [.together (l.ends here)] := by
  obtain ⟨⟨_ | entries, doc⟩, length⟩ := l <;> rfl

theorem mentions_append (c d : Conjunction) :
    mentionsInTerms here (c ++ d) = mentionsInTerms here c ++ mentionsInTerms here d := by
  simp only [mentions_in_terms, List.flatMap_append]

theorem mentions_with_doc (t : Term) (doc : Option String) :
    (t.withDoc doc).mentions here = t.mentions here := by
  rcases t with _ | ⟨_ | _, _⟩ | a | l | l
  · rfl
  · rfl
  · rfl
  · rw [Term.withDoc, mentions_in_avm, mentions_in_avm]
    rfl
  · rw [Term.withDoc, mentions_in_cons, mentions_in_cons]
    rfl
  · rw [Term.withDoc, mentions_in_diff, mentions_in_diff]
    rfl

end Functions

/-- The mentions in the tree of a definition. -/
def Conjunction.mentions (c : Conjunction) : List Mention := mentionsInTerms [] c

/-! ## Writing at the end of a tree -/

/-- The path leads to the end of the conjunction: what is written there comes after all that the
conjunction holds. -/
inductive Conjunction.EndsAt : Conjunction → Path → Prop where
  | here {c : Conjunction} : EndsAt c []
  /-- There is no AVM yet. -/
  | first {c : Conjunction} {name : String} {rest : Path} (none : ∀ a, Term.avm a ∉ c) :
    EndsAt c (name :: rest)
  /-- There is no such feature yet. -/
  | absent {before : Conjunction} {a : Avm} {name : String} {rest : Path} (none : ∀ b, Term.avm b ∉ before)
    (absent : name ∉ a.entries.map (·.1)) : EndsAt (before ++ [.avm a]) (name :: rest)
  /-- The feature is the last one. -/
  | last {before : Conjunction} {a : Avm} {entries : Features} {name : String} {value : Conjunction}
    {rest : Path} (none : ∀ b, Term.avm b ∉ before) (shape : a.entries = entries ++ [(name, value)])
    (absent : name ∉ entries.map (·.1)) (ends : EndsAt value rest) :
    EndsAt (before ++ [.avm a]) (name :: rest)

theorem update_last {entries : Features} {name : String} (absent : name ∉ entries.map (·.1))
    (value : Conjunction) (change : Conjunction → Conjunction) :
    (entries ++ [(name, value)]).update name change = entries ++ [(name, change value)] := by
  induction entries with
  | nil => exact if_pos rfl
  | cons entry rest ih =>
    obtain ⟨key, old⟩ := entry
    rw [List.map_cons, List.mem_cons, not_or] at absent
    rw [List.cons_append, Features.update, if_neg (Ne.symm absent.1), ih absent.2, List.cons_append]

private theorem mentions_of_entry (here : Path) (entries : Features) (name : String) (value : Conjunction) :
    mentionsInEntries here (entries ++ [(name, value)]) =
      mentionsInEntries here entries ++ mentionsInTerms (here ++ [name]) value := by
  simp only [mentions_in_entries, List.flatMap_append, List.flatMap_singleton]

private theorem mentions_of_last (here : Path) (before : Conjunction) (a : Avm) :
    mentionsInTerms here (before ++ [.avm a]) =
      mentionsInTerms here before ++ mentionsInEntries here a.entries := by
  rw [mentions_append, mentions_in_terms here [_], List.flatMap_singleton, mentions_in_avm]

/-- A path that is new makes one AVM inside the other. -/
private theorem mentions_set_nil (here path : Path) (value : Conjunction) :
    mentionsInTerms here (Conjunction.set [] path value) = mentionsInTerms (here ++ path) value := by
  induction path generalizing here with
  | nil => rw [Conjunction.set, List.nil_append, List.append_nil]
  | cons name rest ih =>
    have alone : Conjunction.set [] (name :: rest) value =
        [] ++ [.avm ⟨some ([] ++ [(name, Conjunction.set [] rest value)]), none⟩] := rfl
    rw [alone, mentions_of_last, Avm.entries, Option.getD_some, mentions_of_entry, ih, List.append_assoc]
    rfl

/-- What is written at the end is mentioned last. -/
theorem Conjunction.EndsAt.mentions_set {c : Conjunction} {path : Path} (ends : c.EndsAt path)
    (here : Path) (value : Conjunction) :
    mentionsInTerms here (c.set path value) =
      mentionsInTerms here c ++ mentionsInTerms (here ++ path) value := by
  induction ends generalizing here with
  | here => rw [Conjunction.set, mentions_append, List.append_nil]
  | @first c name rest none =>
    have added := update_avm_of_none none [] fun a => a.update name fun old => Conjunction.set old rest value
    rw [List.append_nil] at added
    have alone := mentions_set_nil here (name :: rest) value
    rw [Conjunction.set] at alone ⊢
    rw [added, mentions_append, alone]
  | @absent before a name rest none absent =>
    rw [Conjunction.set, update_avm_of_none none, Conjunction.updateAvm, mentions_of_last,
      mentions_of_last, Avm.update, Avm.entries, Option.getD_some, update_absent absent, mentions_of_entry,
      mentions_set_nil, List.append_assoc, List.append_assoc]
    rfl
  | @last before a entries name old rest none shape absent ends ih =>
    rw [Conjunction.set, update_avm_of_none none, Conjunction.updateAvm, mentions_of_last,
      mentions_of_last, Avm.update, Avm.entries, Option.getD_some, shape, update_last absent,
      mentions_of_entry, mentions_of_entry, ih]
    simp only [List.append_assoc, List.singleton_append]

/-! ## Phrases in order -/

/-- The features of the AVM and of all AVMs inside it are written in order: each at the end of what
those before it have made. -/
inductive Phrase.InOrder : Phrase → Prop where
  | atom {kind : AtomKind} {text : String} {doc : Option String} : InOrder (.atom kind text doc)
  | avm {features : List (Series String × Series Phrase)} {doc : Option String}
    (ends : ∀ before feature after, features = before ++ feature :: after →
      Conjunction.EndsAt [.avm (Avm.ofPaths (valuesOfFeatures before))] (featurePath feature.1))
    (values : ∀ feature ∈ features, ∀ p ∈ feature.2.toList, InOrder p) : InOrder (.avm features doc)
  | cons {items : List (Series Phrase)} {ending : Ending} {doc : Option String}
    (values : ∀ item ∈ items, ∀ p ∈ item.toList, InOrder p)
    (last : ∀ last tail, ending = .dotted last tail → ∀ p ∈ last.toList, InOrder p)
    (tail : ∀ last tail, ending = .dotted last tail → ∀ p ∈ tail.toList, InOrder p) :
    InOrder (.cons items ending doc)
  | diff {items : List (Series Phrase)} {doc : Option String}
    (values : ∀ item ∈ items, ∀ p ∈ item.toList, InOrder p) : InOrder (.diff items doc)

/-- A list without a dotted tail is in order if its items are. -/
theorem Phrase.InOrder.undotted {items : List (Series Phrase)} {ending : Ending} {doc : Option String}
    (undotted : ∀ last tail, ending ≠ .dotted last tail)
    (values : ∀ item ∈ items, ∀ p ∈ item.toList, Phrase.InOrder p) : (Phrase.cons items ending doc).InOrder :=
  .cons values (fun last tail same => absurd same (undotted last tail))
    fun last tail same => absurd same (undotted last tail)

/-- The phrase mentions what its value does, in the same order. -/
private def MentionsTree (p : Phrase) : Prop := ∀ here, p.mentions here = p.term.mentions here

private theorem series_mentions_tree {terms : Series Phrase} (each : terms.All MentionsTree) (here : Path) :
    mentionsOfSeries here terms = mentionsInTerms here (valueOfSeries terms) := by
  rw [mentions_of_series, mentions_in_terms, value_of_series, List.flatMap_map]
  exact List.flatMap_congr fun p member => each p member here

/-- Features that are written in order are mentioned in order. -/
private theorem mentions_of_paths (writes : List (Path × Conjunction))
    (nonempty : ∀ write ∈ writes, write.1 ≠ [])
    (ends : ∀ before write after, writes = before ++ write :: after →
      Conjunction.EndsAt [.avm (Avm.ofPaths before)] write.1) (here : Path) :
    mentionsInEntries here (Avm.ofPaths writes).entries =
      writes.flatMap fun (path, value) => mentionsInTerms (here ++ path) value := by
  induction writes using List.reverseRecOn with
  | nil => rfl
  | append_singleton writes write ih =>
    obtain ⟨path, value⟩ := write
    obtain ⟨some, last⟩ := List.forall_mem_append.mp nonempty
    have path_some : path ≠ [] := last _ (List.mem_singleton_self _)
    have earlier := ih some fun before write after shape => ends before write (after ++ [(path, value)])
      (by rw [shape]; simp)
    have written := (ends writes (path, value) [] rfl).mentions_set here value
    rw [set_single _ path_some, mentions_in_terms here [_], mentions_in_terms here [_],
      List.flatMap_singleton, List.flatMap_singleton, mentions_in_avm, mentions_in_avm, earlier] at written
    rw [List.flatMap_append, List.flatMap_singleton, ← written, Avm.ofPaths, List.foldl_append]
    rfl

/-! ### Lists -/

/-- The mentions in the items of a chain that stands at a path, from an index on. -/
def mentionsInItems (chain : Path) (index : Nat) (items : List Conjunction) : List Mention :=
  (items.zipIdx index).flatMap fun (item, index) => mentionsInTerms (chain ++ itemPath index) item

private theorem mentions_in_next_items (chain : Path) (index : Nat) (items : List Conjunction) :
    mentionsInItems (chain ++ [listTail]) index items = mentionsInItems chain (index + 1) items := by
  rw [mentionsInItems, mentionsInItems, List.zipIdx_succ, List.flatMap_map]
  refine List.flatMap_congr fun (item, place) _ => ?_
  have path : chain ++ [listTail] ++ itemPath place = chain ++ itemPath (place + 1) := by
    rw [List.append_assoc, itemPath, itemPath, List.replicate_succ]
    rfl
  simp only [path]

/-- A chain is mentioned item by item, and then its end. -/
theorem mentions_of_linked (here : Path) (items : List Conjunction) (last : Option Conjunction) :
    mentionsInTerms here ((linked items last).getD []) =
      mentionsInItems here 0 items ++ mentionsInTerms (here ++ tailPath items.length) (last.getD []) := by
  induction items generalizing here with
  | nil => rw [linked, tailPath, List.length_nil, List.replicate_zero, List.append_nil]; rfl
  | cons item rest ih =>
    have rests : mentionsInEntries here (featureIf listTail (linked rest last)) =
        mentionsInTerms (here ++ [listTail]) ((linked rest last).getD []) := by
      cases linked rest last with
      | none => rfl
      | some value => simp [featureIf, mentionsInEntries]
    have tail : here ++ [listTail] ++ tailPath rest.length = here ++ tailPath (item :: rest).length := by
      rw [List.append_assoc, tailPath, tailPath, List.length_cons, List.replicate_succ]
      rfl
    rw [linked, Option.getD_some, mentions_in_terms, List.flatMap_singleton, mentions_in_avm, Avm.entries,
      Option.getD_some, mentionsInEntries, rests, ih, tail, mentions_in_next_items, ← List.append_assoc]
    rfl

private theorem items_mention_tree {items : List (Series Phrase)}
    (each : ∀ item ∈ items, item.All MentionsTree) (chain : Path) (index : Nat) :
    mentionsOfItems chain index items = mentionsInItems chain index (items.map valueOfSeries) := by
  rw [mentions_of_items, mentionsInItems, List.zipIdx_map, List.flatMap_map]
  exact List.flatMap_congr fun place member =>
    series_mentions_tree (each place.1 (List.fst_mem_of_mem_zipIdx member)) _

private theorem mentions_of_item (chain : Path) (items : List Conjunction) (item : Conjunction) :
    mentionsInItems chain 0 (items ++ [item]) =
      mentionsInItems chain 0 items ++ mentionsInTerms (chain ++ itemPath items.length) item := by
  simp [mentionsInItems, List.zipIdx_append]

/-- A mark mentions nothing. -/
private theorem mentions_of_mark {last : Conjunction} (mark : ListEnd.of last ≠ .value) (here : Path) :
    mentionsInTerms here last = [] := by
  rw [ListEnd.of.eq_def] at mark
  split at mark
  · rfl
  · exact absurd rfl mark

/-- A list is mentioned item by item, and then its end. -/
theorem mentions_of_list (here : Path) {items : List Conjunction} {last : Conjunction}
    (ends : items ≠ [] ∨ ListEnd.of last ≠ .value) :
    (Term.cons (ConsList.ofItems items last)).mentions here =
      mentionsInItems here 0 items ++ mentionsInTerms (here ++ tailPath items.length) last := by
  have same (path : Path) : mentionsInTerms path ((if ListEnd.of last = .open then none else some last).getD []) =
      mentionsInTerms path last := by
    by_cases stays : ListEnd.of last = .open
    · have mark : ListEnd.of last ≠ .value := by rw [stays]; decide
      rw [if_pos stays, mentions_of_mark mark]
      rfl
    · rw [if_neg stays, Option.getD_some]
  rw [mentions_in_cons, ConsList.of_items, ConsList.holding, ← same]
  generalize (if ListEnd.of last = .open then none else some last) = kept at same ⊢
  rw [← mentions_of_linked]
  cases items with
  | nil =>
    rw [linked, same, mentions_of_mark (ends.resolve_left fun some => some rfl)]
    cases kept <;> rfl
  | cons item rest =>
    rw [← chain_linked (List.cons_ne_nil item rest), mentions_in_terms, List.flatMap_singleton,
      mentions_in_avm]

private theorem cons_mentions_tree {items : List (Series Phrase)} {ending : Ending} (doc : Option String)
    (each : ∀ item ∈ items, item.All MentionsTree)
    (eachEnding : ∀ last tail, ending = .dotted last tail → last.All MentionsTree ∧ tail.All MentionsTree) :
    MentionsTree (.cons items ending doc) := by
  intro here
  rw [Phrase.mentions, Phrase.term, mentions_with_doc, values_of_items, items_mention_tree each]
  cases ending with
  | closed | ellipsis =>
    have mark (name : String) (path : Path) : mentionsInTerms path [.named name] = [] := rfl
    rw [Ending.mentions, Ending.values, List.append_nil, mentions_of_list here (.inr (by decide)), mark]
    simp only [List.append_nil]
  | dotted last tail =>
    obtain ⟨eachLast, eachTail⟩ := eachEnding last tail rfl
    rw [Ending.mentions, Ending.values, mentions_of_list here (.inl (by simp)), mentions_of_item,
      series_mentions_tree eachLast, series_mentions_tree eachTail, List.length_append, List.length_map,
      List.append_assoc]
    rfl

private theorem diff_mentions_tree {items : List (Series Phrase)} (doc : Option String)
    (each : ∀ item ∈ items, item.All MentionsTree) : MentionsTree (.diff items doc) := by
  intro here
  have openEnd (path : Path) : mentionsInTerms path DiffList.openEnd = [] := rfl
  obtain ⟨chain, more⟩ := linked_some (items.map valueOfSeries) DiffList.openEnd
  have chained := mentions_of_linked (here ++ [diffListChain]) (items.map valueOfSeries)
    (some DiffList.openEnd)
  rw [more, Option.getD_some, Option.getD_some, openEnd, List.append_nil] at chained
  have ends : DiffList.ends here (DiffList.ofValues (items.map valueOfSeries)) =
      [ (here ++ diffListChain :: tailPath items.length).text, (here ++ [diffListLast]).text ] := by
    simp [DiffList.ends, DiffList.openEndPath, DiffList.ofValues]
  rw [Phrase.mentions, Phrase.term, mentions_with_doc, mentions_in_diff, values_of_items,
    items_mention_tree each, ends, avm_of_values, more, ← chained, Avm.entries, Option.getD_some, featureIf,
    Option.toList_some, List.map_singleton, mentions_in_entries, List.flatMap_append,
    List.flatMap_singleton, List.flatMap_singleton]
  simp only [openEnd, List.append_nil]

/-- A phrase that is written in order mentions what its value does, in the same order. -/
theorem Phrase.InOrder.mentions_eq {p : Phrase} (inOrder : p.InOrder) :
    ∀ here, p.mentions here = p.term.mentions here := by
  induction inOrder with
  | @atom kind text doc => cases kind <;> exact fun here => rfl
  | @avm features doc ends values ih =>
    intro here
    have each : ∀ feature ∈ features, feature.2.All MentionsTree := fun feature member => ih feature member
    have nonempty : ∀ write ∈ valuesOfFeatures features, write.1 ≠ [] := by
      intro write member
      rw [values_of_features] at member
      obtain ⟨⟨names, value⟩, -, rfl⟩ := List.mem_map.mp member
      exact List.cons_ne_nil _ _
    have paths := mentions_of_paths (valuesOfFeatures features) nonempty (fun before write after shape => ?_) here
    · rw [values_of_features, List.flatMap_map] at paths
      rw [Phrase.mentions, Phrase.term, mentions_with_doc, mentions_in_avm, values_of_features, paths,
        mentions_of_features]
      exact List.flatMap_congr fun feature member => series_mentions_tree (each feature member) _
    · rw [values_of_features] at shape
      obtain ⟨first, others, rfl, rfl, shape'⟩ := List.map_eq_append_iff.mp shape
      obtain ⟨feature, later, rfl, rfl, -⟩ := List.map_eq_cons_iff.mp shape'
      rw [← values_of_features]
      exact ends first feature later rfl
  | cons values last tail ih ihLast ihTail =>
    exact cons_mentions_tree _ ih fun last tail same => ⟨ihLast last tail same, ihTail last tail same⟩
  | diff values ih => exact diff_mentions_tree _ ih

namespace Body

/-- The terms of the body are written in order. -/
def InOrder : Body → Prop
  | docOnly _ => True
  | joined terms _ => terms.All Phrase.InOrder

theorem InOrder.mentions_eq {body : Body} (inOrder : body.InOrder) :
    body.mentions = body.conjunction.mentions := by
  cases body with
  | docOnly doc => rfl
  | joined terms doc => exact series_mentions_tree (fun p member => (inOrder p member).mentions_eq) []

end Body

end TypeDescription
