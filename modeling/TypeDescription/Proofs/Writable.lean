import TypeDescription.Proofs.Chains
import TypeDescription.Proofs.CoreferenceSets
import TypeDescription.Proofs.Printing

/-!
The terms of definitions that are read. They are made in few ways: an AVM is not null and its names
are in upper case, no two of them the same, and a list is the chain of its items. However the values
of a phrase are merged, what comes out is of this kind.
-/

namespace TypeDescription

open Lexeme Spelling

/-! ## Terms that can be written -/

/-- What has to be known of a token so that its text can be written again. -/
def Rewritable (piece : TokenKind × String) : Prop :=
  match piece.1 with
  | .docstring => IsDoc piece.2
  | .string => ClosedBy '"' piece.2.toList ∧ '\n' ∉ piece.2.toList
  | .regex => ClosedBy '$' piece.2.toList ∧ '\n' ∉ piece.2.toList
  | .identifier | .quotedSymbol => IsSymbol piece.2.toList ∧ ¬ Marked piece.2.toList
  | .coreference => ∃ tag, piece.2 = "#" ++ tag ∧ IsSymbol tag.toList ∧ tag.toList.head? ≠ some '|'
  | .affixPattern => ∃ first second, affixFields piece.2 = (String.ofList first, String.ofList second) ∧
      IsSpaced first second
  | _ => True

/-- The token that a type-like term is written as. -/
def TypeForm.tokenKind : TypeForm → TokenKind
  | name => .identifier
  | string => .string
  | regex => .regex

/-- A name that a path can be made of. -/
structure IsFeatureName (name : String) : Prop where
  token : Rewritable (.identifier, name)
  upper : upperCase name = name

/-- The ends of lists: the two marks, without docstrings, and tails that are no marks. -/
def IsEnding (items : List Conjunction) (last : Conjunction) : Prop :=
  last = [.named emptyListType] ∨ last = [.named openListType] ∨
    ListEnd.of last = .value ∧ last ≠ [] ∧ items ≠ []

/-- The terms that reading can make. -/
inductive Term.Writable : Term → Prop where
  | type {form : TypeForm} {text : String} {doc : Option String}
    (token : Rewritable (form.tokenKind, text)) (documented : ∀ d ∈ doc, IsDoc d) :
    Writable (.type form text doc)
  | coreference {tag : String} {doc : Option String} (token : Rewritable (.coreference, "#" ++ tag))
    (documented : ∀ d ∈ doc, IsDoc d) : Writable (.coreference (some tag) doc)
  | avm {entries : Features} {doc : Option String} (documented : ∀ d ∈ doc, IsDoc d)
    (nodup : (entries.map (·.1)).Nodup) (names : ∀ entry ∈ entries, IsFeatureName entry.1)
    (some : ∀ entry ∈ entries, entry.2 ≠ [])
    (values : ∀ entry ∈ entries, ∀ t ∈ entry.2, Writable t) :
    Writable (.avm ⟨Option.some entries, doc⟩)
  | cons {items : List Conjunction} {last : Conjunction} {doc : Option String}
    (documented : ∀ d ∈ doc, IsDoc d) (some : ∀ item ∈ items, item ≠ [])
    (values : ∀ item ∈ items, ∀ t ∈ item, Writable t) (ending : IsEnding items last)
    (tail : ListEnd.of last = .value → ∀ t ∈ last, Writable t) :
    Writable ((Term.cons (ConsList.ofItems items last)).withDoc doc)
  | diff {items : List Conjunction} {doc : Option String} (documented : ∀ d ∈ doc, IsDoc d)
    (some : ∀ item ∈ items, item ≠ []) (values : ∀ item ∈ items, ∀ t ∈ item, Writable t) :
    Writable ((Term.diff (DiffList.ofValues items)).withDoc doc)

/-- The entries of an AVM that can be written. -/
structure Features.Writable (entries : Features) : Prop where
  nodup : (entries.map (·.1)).Nodup
  names : ∀ entry ∈ entries, IsFeatureName entry.1
  some : ∀ entry ∈ entries, entry.2 ≠ []
  values : ∀ entry ∈ entries, ∀ t ∈ entry.2, t.Writable

theorem writable_avm_iff {a : Avm} :
    (Term.avm a).Writable ↔
      (∀ d ∈ a.doc, IsDoc d) ∧ ∃ entries : Features, a.features = some entries ∧ entries.Writable := by
  constructor
  · intro writable
    generalize shape : Term.avm a = t at writable
    cases writable with
    | avm documented nodup names some values =>
      cases shape
      exact ⟨documented, _, rfl, nodup, names, some, values⟩
    | type => cases shape
    | coreference => cases shape
    | cons => cases shape
    | diff => cases shape
  · rintro ⟨documented, entries, shape, nodup, names, some, values⟩
    obtain ⟨features, doc⟩ := a
    obtain rfl : features = Option.some entries := shape
    exact .avm documented nodup names some values

/-! ## Merging values -/

section Merging

variable {path : Path} {value : Conjunction}

/-- A change that leaves something, and only what can be written. -/
private def Keeps (change : Conjunction → Conjunction) : Prop :=
  ∀ c : Conjunction, (∀ t ∈ c, t.Writable) → change c ≠ [] ∧ ∀ t ∈ change c, t.Writable

private theorem name_of_update {entries : Features} {name : String}
    {change : Conjunction → Conjunction} :
    ∀ key ∈ (entries.update name change).map (·.1), key ∈ entries.map (·.1) ∨ key = name := by
  intro key member
  induction entries with
  | nil =>
    rw [Features.update, List.map_singleton, List.mem_singleton] at member
    exact .inr member
  | cons entry rest ih =>
    obtain ⟨other, old⟩ := entry
    rw [Features.update] at member
    split at member
    · exact .inl member
    · rw [List.map_cons, List.mem_cons] at member
      rcases member with same | member
      · exact .inl (List.mem_cons.mpr (.inl same))
      · exact (ih member).imp_left (List.mem_cons_of_mem _)

private theorem writable_update {entries : Features} (writable : entries.Writable) {name : String}
    (isName : IsFeatureName name) {change : Conjunction → Conjunction} (keeps : Keeps change) :
    (entries.update name change).Writable := by
  induction entries with
  | nil =>
    obtain ⟨nonempty, values⟩ := keeps [] fun t member => nomatch member
    refine ⟨List.nodup_singleton _, ?_, ?_, ?_⟩
    all_goals
      intro entry member
      obtain rfl := List.mem_singleton.mp member
    · exact isName
    · exact nonempty
    · exact values
  | cons entry rest ih =>
    obtain ⟨key, old⟩ := entry
    obtain ⟨nodup, names, some, values⟩ := writable
    rw [List.map_cons, List.nodup_cons] at nodup
    obtain ⟨nameHere, nameLater⟩ := List.forall_mem_cons.mp names
    obtain ⟨someHere, someLater⟩ := List.forall_mem_cons.mp some
    obtain ⟨valuesHere, valuesLater⟩ := List.forall_mem_cons.mp values
    rw [Features.update]
    split
    · obtain ⟨nonempty, changed⟩ := keeps old valuesHere
      exact ⟨List.nodup_cons.mpr nodup, List.forall_mem_cons.mpr ⟨nameHere, nameLater⟩,
        List.forall_mem_cons.mpr ⟨nonempty, someLater⟩,
        List.forall_mem_cons.mpr ⟨changed, valuesLater⟩⟩
    · next differ =>
      obtain ⟨nodup', names', some', values'⟩ := ih ⟨nodup.2, nameLater, someLater, valuesLater⟩
      refine ⟨List.nodup_cons.mpr ⟨fun member => ?_, nodup'⟩,
        List.forall_mem_cons.mpr ⟨nameHere, names'⟩, List.forall_mem_cons.mpr ⟨someHere, some'⟩,
        List.forall_mem_cons.mpr ⟨valuesHere, values'⟩⟩
      rcases name_of_update key member with member | same
      · exact nodup.1 member
      · exact differ same

private theorem writable_update_avm {a : Avm} (writable : (Term.avm a).Writable) {name : String}
    (isName : IsFeatureName name) {change : Conjunction → Conjunction} (keeps : Keeps change) :
    (Term.avm (a.update name change)).Writable := by
  obtain ⟨documented, entries, shape, entriesWritable⟩ := writable_avm_iff.mp writable
  have updated := writable_update entriesWritable isName keeps
  refine writable_avm_iff.mpr ⟨documented, _, rfl, ?_⟩
  rwa [Avm.entries, shape]

private theorem writable_empty : (Term.avm Avm.empty).Writable :=
  writable_avm_iff.mpr ⟨fun _ member => (nomatch member), [], rfl, List.nodup_nil,
    fun _ member => (nomatch member), fun _ member => (nomatch member),
    fun _ member => (nomatch member)⟩

/-- Writing at the end of a path keeps what can be written. -/
private theorem keeps_set (names : ∀ name ∈ path, IsFeatureName name) (some : value ≠ [])
    (values : ∀ t ∈ value, t.Writable) : Keeps fun c => c.set path value := by
  induction path with
  | nil =>
    intro c writable
    refine ⟨List.append_ne_nil_of_right_ne_nil c some, fun t member => ?_⟩
    exact (List.mem_append.mp member).elim (writable t) (values t)
  | cons name rest ih =>
    obtain ⟨isName, later⟩ := List.forall_mem_cons.mp names
    have inner := ih later
    intro c writable
    simp only [Conjunction.set]
    fun_induction Conjunction.updateAvm c _ with
    | case1 =>
      refine ⟨List.cons_ne_nil _ _, fun t member => ?_⟩
      obtain rfl := List.mem_singleton.mp member
      exact writable_update_avm writable_empty isName inner
    | case2 a rest' =>
      obtain ⟨here, others⟩ := List.forall_mem_cons.mp writable
      exact ⟨List.cons_ne_nil _ _,
        List.forall_mem_cons.mpr ⟨writable_update_avm here isName inner, others⟩⟩
    | case3 t rest' other ih' =>
      obtain ⟨here, others⟩ := List.forall_mem_cons.mp writable
      exact ⟨List.cons_ne_nil _ _, List.forall_mem_cons.mpr ⟨here, (ih' others).2⟩⟩

/-- Paths of names, with values, make an AVM that can be written. -/
private theorem writable_of_paths {writes : List (Path × Conjunction)}
    (paths : ∀ write ∈ writes, ∀ name ∈ write.1, IsFeatureName name)
    (some : ∀ write ∈ writes, write.2 ≠ [])
    (values : ∀ write ∈ writes, ∀ t ∈ write.2, t.Writable) :
    (Term.avm (Avm.ofPaths writes)).Writable := by
  have inside (a : Avm) (writable : (Term.avm a).Writable) :
      (Term.avm (writes.foldl (fun a write => a.set write.1 write.2) a)).Writable := by
    induction writes generalizing a with
    | nil => exact writable
    | cons write rest ih =>
      obtain ⟨path, value⟩ := write
      obtain ⟨pathHere, pathsLater⟩ := List.forall_mem_cons.mp paths
      obtain ⟨someHere, someLater⟩ := List.forall_mem_cons.mp some
      obtain ⟨valuesHere, valuesLater⟩ := List.forall_mem_cons.mp values
      refine ih pathsLater someLater valuesLater (a.set path value) ?_
      cases path with
      | nil => exact writable
      | cons name rest =>
        obtain ⟨isName, later⟩ := List.forall_mem_cons.mp pathHere
        exact writable_update_avm writable isName (keeps_set later someHere valuesHere)
  exact inside .empty writable_empty

end Merging

/-! ## Phrases -/

/-- The mark of the empty list with a docstring, which is not written where a list ends. -/
def Conjunction.isDocumentedMark : Conjunction → Bool
  | [.type .name text (some _)] => text = emptyListType
  | _ => false

/-- The term is no list whose tail is a documented mark of the empty list. -/
def Term.plainTail : Term → Bool
  | .cons l => !(l.avm.get? (Path.ofText l.lastPath)).any Conjunction.isDocumentedMark
  | _ => true

/-- The value can be written wherever no tail in it is a documented mark. -/
private def WritableWhenPlain (p : Phrase) : Prop :=
  ∀ here, (∀ place ∈ p.term.placed here, place.2.plainTail = true) → p.term.Writable

private theorem writable_series {terms : Series Phrase} (each : terms.All WritableWhenPlain)
    (here : Path)
    (plain : ∀ place ∈ (valueOfSeries terms).flatMap (Term.placed here), place.2.plainTail = true) :
    ∀ t ∈ valueOfSeries terms, t.Writable := by
  intro t member
  have inside := member
  rw [value_of_series] at member
  obtain ⟨p, inTerms, rfl⟩ := List.mem_map.mp member
  exact each p inTerms here fun place placed => plain place (List.mem_flatMap_of_mem inside placed)

theorem value_of_series_ne_nil (terms : Series Phrase) : valueOfSeries terms ≠ [] := by
  rw [value_of_series]
  exact List.cons_ne_nil _ _

private theorem mem_placed_items (here : Path) {items : List Conjunction} {item : Conjunction}
    (member : item ∈ items) :
    ∃ path, ∀ place ∈ item.flatMap (Term.placed path), place ∈ placedItems here 0 items := by
  obtain ⟨index, found⟩ := List.mem_iff_getElem?.mp member
  have inside : (item, index) ∈ items.zipIdx := List.mk_mem_zipIdx_iff_getElem?.mpr found
  exact ⟨here ++ itemPath index, fun place placed => List.mem_flatMap_of_mem inside placed⟩

private theorem is_feature_name {name : String} (token : Rewritable (.identifier, name)) :
    IsFeatureName (upperCase name) :=
  ⟨⟨is_symbol_upper_case token.1, not_marked_upper_case name⟩, upperCase_upperCase name⟩

theorem coreference_tag_append (tag : String) : coreferenceTag ("#" ++ tag) = tag := by
  rw [coreferenceTag, String.toList_append]
  exact String.ofList_toList

private theorem writable_atom {kind : AtomKind} {text : String} {doc : Option String}
    (documented : ∀ d ∈ doc, IsDoc d) (token : Rewritable (kind.tokenKind, text)) :
    (Phrase.atom kind text doc).term.Writable := by
  cases kind with
  | name => exact .type token documented
  | quoted => exact .type token documented
  | string => exact .type token documented
  | regex => exact .type token documented
  | coreference =>
    obtain ⟨tag, rfl, symbolic, noBar⟩ := token
    rw [Phrase.term, AtomKind.term, coreference_tag_append]
    exact .coreference ⟨tag, rfl, symbolic, noBar⟩ documented

private theorem writable_avm {features : List (Series String × Series Phrase)} {doc : Option String}
    (documented : ∀ d ∈ doc, IsDoc d)
    (each : ∀ feature ∈ features, (∀ name ∈ feature.1.toList, Rewritable (.identifier, name)) ∧
      feature.2.All WritableWhenPlain) : WritableWhenPlain (.avm features doc) := by
  intro here plain
  have values : (Term.avm (Avm.ofPaths (valuesOfFeatures features))).Writable := by
    rw [values_of_features]
    apply writable_of_paths
    all_goals
      intro write member
      obtain ⟨⟨names, terms⟩, inside, rfl⟩ := List.mem_map.mp member
      obtain ⟨tokens, values⟩ := each _ inside
    · intro name inPath
      obtain ⟨name', inNames, rfl⟩ := List.mem_map.mp inPath
      exact is_feature_name (tokens name' inNames)
    · exact value_of_series_ne_nil terms
    · refine writable_series values (here ++ featurePath names) fun place placed => ?_
      refine plain place ((placed_avm_phrase here features doc).mem_iff.mpr ?_)
      exact List.mem_flatMap.mpr ⟨(names, terms), inside, placed⟩
  obtain ⟨-, entries, shape, entriesWritable⟩ := writable_avm_iff.mp values
  exact writable_avm_iff.mpr ⟨documented, entries, shape, entriesWritable⟩

/-- The end of a list that is read, up to docstrings of the marks. -/
private theorem exists_ending {items : List Conjunction} {tail : Series Phrase}
    (nonempty : items ≠ []) {doc : Option String}
    (plain : ((Term.cons (ConsList.ofItems items (valueOfSeries tail))).withDoc doc).plainTail) :
    ∃ last, ConsList.ofItems items (valueOfSeries tail) = ConsList.ofItems items last ∧
      IsEnding items last ∧ (ListEnd.of last = .value → last = valueOfSeries tail) := by
  have ended := value_of_series_ne_nil tail
  cases mark : ListEnd.of (valueOfSeries tail) with
  | «open» =>
    have stays : ListEnd.of [.named openListType] = .open := by decide
    refine ⟨[.named openListType], ?_, .inr (.inl rfl), fun value => ?_⟩
    · rw [ConsList.ofItems, ConsList.ofItems, finish_open _ mark, finish_open _ stays]
    · rw [stays] at value
      cases value
  | value => exact ⟨_, rfl, .inr (.inr ⟨mark, ended, nonempty⟩), fun _ => rfl⟩
  | closed =>
    obtain ⟨d, shape⟩ := list_end_closed_iff.mp mark
    have bare : d = none := by
      cases d with
      | none => rfl
      | some d =>
        have found := ofItems_tail nonempty (by rw [mark]; decide)
        let l := ConsList.ofItems items (valueOfSeries tail)
        have plain : (!(l.avm.get? (Path.ofText l.lastPath)).any Conjunction.isDocumentedMark) = true :=
          plain
        rw [found, shape] at plain
        simp [Conjunction.isDocumentedMark] at plain
    subst bare
    exact ⟨_, rfl, .inl shape, fun _ => rfl⟩

section Lists

variable {items : List Conjunction} {here : Path}

/-- Items that are read can be written, where they stand in a chain. -/
private theorem writable_items
    (each : ∀ item ∈ items, ∃ terms, item = valueOfSeries terms ∧ terms.All WritableWhenPlain)
    (plain : ∀ place ∈ placedItems here 0 items, place.2.plainTail = true) :
    (∀ item ∈ items, item ≠ []) ∧ ∀ item ∈ items, ∀ t ∈ item, t.Writable := by
  refine ⟨fun item member => ?_, fun item member => ?_⟩
  · obtain ⟨terms, rfl, -⟩ := each item member
    exact value_of_series_ne_nil terms
  · obtain ⟨path, inside⟩ := mem_placed_items here member
    obtain ⟨terms, rfl, values⟩ := each item member
    exact writable_series values path fun place placed => plain place (inside place placed)

/-- The values of series are items that are read. -/
private theorem exists_series_of_value {items : List (Series Phrase)}
    (each : ∀ item ∈ items, item.All WritableWhenPlain) :
    ∀ item ∈ items.map valueOfSeries,
      ∃ terms, item = valueOfSeries terms ∧ terms.All WritableWhenPlain := by
  intro item member
  obtain ⟨terms, inside, rfl⟩ := List.mem_map.mp member
  exact ⟨terms, rfl, each terms inside⟩

private theorem writable_cons {items : List (Series Phrase)} {ending : Ending} {doc : Option String}
    (documented : ∀ d ∈ doc, IsDoc d) (each : ∀ item ∈ items, item.All WritableWhenPlain)
    (eachEnding : ∀ last tail, ending = .dotted last tail →
      last.All WritableWhenPlain ∧ tail.All WritableWhenPlain) :
    WritableWhenPlain (.cons items ending doc) := by
  intro here plain
  have series : ∀ item ∈ items.map valueOfSeries ++ ending.values.1,
      ∃ terms, item = valueOfSeries terms ∧ terms.All WritableWhenPlain := by
    intro item member
    rcases List.mem_append.mp member with member | member
    · exact exists_series_of_value each item member
    · cases ending with
      | closed => cases member
      | ellipsis => cases member
      | dotted last tail => exact ⟨last, List.mem_singleton.mp member, (eachEnding last tail rfl).1⟩
  simp only [(placed_cons_phrase here items ending doc).mem_iff, List.forall_mem_cons,
    List.forall_mem_append] at plain
  obtain ⟨plainHere, plainItems, plainTail⟩ := plain
  obtain ⟨some, values⟩ := writable_items series plainItems
  rw [Phrase.term, values_of_items] at plainHere ⊢
  cases ending with
  | closed => exact .cons documented some values (.inl rfl) fun value => absurd value (by decide)
  | ellipsis =>
    exact .cons documented some values (.inr (.inl rfl)) fun value => absurd value (by decide)
  | dotted last tail =>
    have nonempty : items.map valueOfSeries ++ [valueOfSeries last] ≠ [] := by simp
    obtain ⟨last', same, isEnding, whole⟩ := exists_ending nonempty plainHere
    simp only [Ending.values] at some values ⊢
    rw [same]
    refine .cons documented some values isEnding fun value => ?_
    obtain rfl := whole value
    have ended : ¬ (items.map valueOfSeries ++ (Ending.dotted last tail).values.1 = [] ∨
        ListEnd.of (Ending.dotted last tail).values.2 = .open) := by simp [Ending.values, value]
    rw [if_neg ended] at plainTail
    exact writable_series (eachEnding last tail rfl).2 _ plainTail

private theorem writable_diff {items : List (Series Phrase)} {doc : Option String}
    (documented : ∀ d ∈ doc, IsDoc d) (each : ∀ item ∈ items, item.All WritableWhenPlain) :
    WritableWhenPlain (.diff items doc) := by
  intro here plain
  simp only [(placed_diff_phrase here items doc).mem_iff, List.forall_mem_cons,
    List.forall_mem_append] at plain
  obtain ⟨some, values⟩ := writable_items (exists_series_of_value each) plain.2.1
  rw [Phrase.term, values_of_items]
  exact .diff documented some values

end Lists

/-- The value of a phrase whose tokens can be written again can be written, unless a tail in it is
a documented mark of the empty list. -/
theorem Phrase.writable {p : Phrase} (tokens : ∀ piece ∈ p.spelling, Rewritable piece) :
    ∀ here, (∀ place ∈ p.term.placed here, place.2.plainTail = true) → p.term.Writable :=
  Phrase.induct_spelled (P := WritableWhenPlain)
    (fun _ _ _ documented token _ _ => writable_atom documented token)
    (fun _ _ documented each => writable_avm documented each)
    (fun _ _ _ documented each eachEnding => writable_cons documented each eachEnding)
    (fun _ _ documented each => writable_diff documented each) p tokens

/-! ## Without docstrings -/

/-- No tail is documented, wherever the terms stand. -/
private def TailsPlain (c : Conjunction) : Prop :=
  c.Inside (fun _ => True) fun place => place.2.plainTail = true

/-- Neither the value itself nor any tail in it is documented. -/
private structure Undocumented (p : Phrase) : Prop where
  bare : p.term.doc = none
  inside : TailsPlain [p.term]

private theorem not_documented_mark {terms : Series Phrase} (each : terms.All Undocumented) :
    (valueOfSeries terms).isDocumentedMark = false := by
  rw [value_of_series, Conjunction.isDocumentedMark.eq_def]
  split
  · next text doc shape =>
    obtain ⟨p, rest, parts, shown, -⟩ := List.map_eq_cons_iff.mp shape
    have bare := (each p (parts ▸ List.mem_cons_self ..)).bare
    rw [shown] at bare
    cases bare
  · rfl

private theorem not_documented_ending {ending : Ending}
    (each : ∀ last tail, ending = .dotted last tail → last.All Undocumented ∧ tail.All Undocumented) :
    ending.values.2.isDocumentedMark = false := by
  cases ending with
  | closed | ellipsis => rfl
  | dotted last tail => exact not_documented_mark (each last tail rfl).2

/-- A phrase without docstrings has no documented tails. -/
theorem Phrase.plain_tails {p : Phrase} (undocumented : ∀ piece ∈ p.spelling, piece.1 ≠ .docstring) :
    ∀ here, ∀ place ∈ p.term.placed here, place.2.plainTail = true := by
  have none {doc : Option String} (absent : ∀ d ∈ doc, TokenKind.docstring ≠ .docstring) : doc = .none :=
    Option.eq_none_iff_forall_not_mem.mpr fun d member => absent d member rfl
  have inside {terms : Series Phrase} (each : terms.All Undocumented) :
      terms.All fun p => TailsPlain [p.term] := fun p member => (each p member).inside
  suffices all : Undocumented p by
    have tails := all.inside
    simpa [TailsPlain, Conjunction.Inside] using tails
  refine Phrase.induct_spelled (P := Undocumented) (fun kind text doc absent _ => ?_)
    (fun features doc absent parts => ?_) (fun items ending doc absent each eachEnding => ?_)
    (fun items doc absent each => ?_) p undocumented
  all_goals
    obtain rfl := none absent
  · refine ⟨by cases kind <;> rfl, fun here _ place member => ?_⟩
    rw [List.flatMap_singleton] at member
    cases kind <;> obtain rfl := List.mem_singleton.mp member <;> rfl
  · refine ⟨rfl, fun here _ place member => ?_⟩
    rw [List.flatMap_singleton, (placed_avm_phrase here features .none).mem_iff] at member
    obtain ⟨feature, inFeatures, member⟩ := List.mem_flatMap.mp member
    exact inside_series (inside (parts feature inFeatures).2) _ trivial place member
  · obtain ⟨lastItems, lastValue⟩ := inside_ending (fun _ _ _ => rfl) fun last tail same =>
      ⟨inside (eachEnding last tail same).1, inside (eachEnding last tail same).2⟩
    have values := List.forall_mem_append.mpr
      ⟨inside_values fun item member => inside (each item member), lastItems⟩
    refine ⟨rfl, fun here _ => ?_⟩
    simp only [List.flatMap_singleton, (placed_cons_phrase here items ending .none).mem_iff,
      List.forall_mem_cons, List.forall_mem_append]
    refine ⟨?_, inside_items values fun _ => trivial, ?_⟩
    · have bare := not_documented_ending eachEnding
      rw [← Bool.not_eq_true] at bare
      rw [Phrase.term, values_of_items]
      refine (Bool.not_eq_true' _).mpr (Bool.eq_false_iff.mpr fun marked => ?_)
      obtain ⟨value, found, isMark⟩ := (Option.any_eq_true ..).mp marked
      exact bare (eq_last_of_ofItems_tail found ▸ isMark)
    · split
      · exact List.forall_mem_nil _
      · exact lastValue _ trivial
  · refine ⟨rfl, fun here _ => ?_⟩
    simp only [List.flatMap_singleton, (placed_diff_phrase here items .none).mem_iff,
      List.forall_mem_cons, List.forall_mem_append]
    exact ⟨rfl, inside_items (inside_values fun item member => inside (each item member)) fun _ => trivial,
      rfl, rfl, List.forall_mem_nil _⟩

theorem Body.plain_tails {body : Body} (undocumented : ∀ piece ∈ body.spelling, piece.1 ≠ .docstring) :
    ∀ place ∈ body.conjunction.placed, place.2.plainTail = true := by
  cases body with
  | docOnly doc => exact List.forall_mem_nil _
  | joined terms doc =>
    intro place member
    rw [Body.conjunction, Conjunction.placed, placed_in_terms, value_of_series, List.flatMap_map] at member
    obtain ⟨p, inside, member⟩ := List.mem_flatMap.mp member
    refine Phrase.plain_tails (fun piece inPhrase => undocumented piece ?_) [] place member
    exact List.mem_append_left _ (subset_spelling_of_series inside inPhrase)

end TypeDescription
