import TypeDescription.Proofs.Texts
import TypeDescription.Proofs.TreeOrder
import TypeDescription.Proofs.Writable

/-!
Writing terms. The text of a term that can be written is that of a phrase which has this term for
its value: a phrase in which no feature is given twice, no path has two names, and no symbol is
quoted.
-/

namespace TypeDescription

open Lexeme Spelling

/-! ## Texts and phrases -/

/-- The term is the value of a phrase that is written in order, and its text is that of this phrase. -/
def Term.Printable (t : Term) : Prop :=
  ∃ p : Phrase, p.term = t ∧ p.InOrder ∧ Printed t.text p.spelling

/-- The text of the conjunction is that of joined terms with this value, which are written in order. -/
def Conjunction.Printable (c : Conjunction) : Prop :=
  ∃ terms : Series Phrase, valueOfSeries terms = c ∧ terms.All Phrase.InOrder ∧
    Printed c.text (spellingOfSeries terms)

theorem Conjunction.printable {c : Conjunction} (nonempty : c ≠ []) (each : ∀ t ∈ c, t.Printable) :
    c.Printable := by
  have phrases : ∀ t ∈ c, ∃ p : Phrase, (p.InOrder ∧ Printed p.term.text p.spelling) ∧ p.term = t := by
    intro t member
    obtain ⟨p, rfl, printed⟩ := each t member
    exact ⟨p, printed, rfl⟩
  obtain ⟨terms, rfl, printed⟩ := exists_preimages phrases
  obtain ⟨first, rest, rfl⟩ := List.exists_cons_of_ne_nil (l := terms) (by simpa using nonempty)
  refine ⟨⟨first, rest⟩, value_of_series _, fun p member => (printed p member).1, ?_⟩
  have fixed : TokenKind.ampersand.isSymbol = true := rfl
  have joined := Printed.joined (separates_spaced fixed) (List.cons_ne_nil first rest) fun p member =>
    (printed p member).2
  rw [text_eq, List.map_map, spelling_of_series]
  exact joined

/-! ## Texts of lists -/

theorem text_with_doc {t : Term} (bare : t.doc = none) (doc : Option String) :
    (t.withDoc doc).text = docBefore doc ++ t.text := by
  have none : docBefore Option.none = "" := rfl
  cases t with
  | type form text d =>
    obtain rfl : d = Option.none := bare
    rw [Term.withDoc, Term.text, Term.outline, Term.text, Term.outline, none, String.empty_append]
  | coreference tag d =>
    obtain rfl : d = Option.none := bare
    rw [Term.withDoc, Term.text, Term.outline, Term.text, Term.outline, none, String.empty_append,
      String.append_assoc]
  | avm a =>
    have bare : a.doc = Option.none := bare
    rw [Term.withDoc, Term.text_avm, Term.text_avm, bare, none, String.empty_append]
    rfl
  | cons l =>
    have bare : l.avm.doc = Option.none := bare
    rw [Term.withDoc, Term.text_cons, Term.text_cons, bare, none, String.empty_append]
    rfl
  | diff l =>
    have bare : l.avm.doc = Option.none := bare
    rw [Term.withDoc, Term.text_diff, Term.text_diff, bare, none, String.empty_append]
    rfl

section Lists

variable {items : List Conjunction} {last : Conjunction}

/-- A list with items is written between brackets, with its end after the last of them. -/
theorem text_of_items (nonempty : items ≠ []) :
    (Term.cons (ConsList.ofItems items last)).text =
      "< " ++ ", ".intercalate (items.map Conjunction.text) ++
        (match ListEnd.of last with
          | .open => ", ..."
          | .closed => ""
          | .value => " . " ++ Conjunction.text last) ++ " >" := by
  have none : docBefore Option.none = "" := rfl
  have several : (items.map Conjunction.text).isEmpty = false := by simpa using nonempty
  have positive : (ConsList.ofItems items last).length ≠ 0 := by
    rw [length_of_items]
    simpa using nonempty
  rw [Term.text_cons, doc_of_items, none, String.empty_append, ofItems_values]
  unfold ConsList.written
  rw [if_neg (by simp [several])]
  by_cases stays : ListEnd.of last = .open
  · have flag : (ConsList.ofItems items last).terminated = false := by
      rw [ConsList.ofItems, finish_open _ stays]
      exact terminated_pushed items
    simp [flag, stays]
  · have flag : (ConsList.ofItems items last).terminated = true := by
      rw [ConsList.ofItems, finish_closed _ stays]
    rw [Term.writtenTail?, if_neg positive, ofItems_tail nonempty stays]
    cases mark : ListEnd.of last with
    | «open» => exact absurd mark stays
    | closed => simp [flag, mark, Option.filter]
    | value => simp [flag, mark, Option.filter]

theorem text_of_values (nonempty : items ≠ []) :
    (Term.diff (DiffList.ofValues items)).text =
      "<! " ++ ", ".intercalate (items.map Conjunction.text) ++ " !>" := by
  have none : docBefore Option.none = "" := rfl
  have positive : (DiffList.ofValues items).length ≠ 0 := by simpa [DiffList.ofValues] using nonempty
  rw [Term.text_diff, avm_of_values, none, String.empty_append, ofValues_values, DiffList.written,
    if_neg positive]

end Lists

/-! ## Phrases for terms -/

/-- A docstring is put before what is printed without one. -/
private theorem printed_with_doc {t : Term} (bare : t.doc = none) {doc : Option String}
    (documented : ∀ d ∈ doc, IsDoc d) {core : Spelling} (printed : Printed t.text core) :
    Printed (t.withDoc doc).text (ofDoc doc ++ core) := by
  rw [text_with_doc bare]
  exact printed.documented documented

private theorem printed_closer {kind : TokenKind}
    (closes : kind = .avmClose ∨ kind = .consListClose ∨ kind = .diffListClose) :
    Printed kind.description (Spelling.symbol kind) := by
  rcases closes with rfl | rfl | rfl
  all_goals exact .symbol rfl (by simp) (by simp)

/-- Conjunctions that can be printed are the values of series. -/
private theorem exists_series {items : List Conjunction} (each : ∀ item ∈ items, item.Printable) :
    ∃ series : List (Series Phrase), items = series.map valueOfSeries ∧
      (∀ terms ∈ series, terms.All Phrase.InOrder) ∧
        ∀ terms ∈ series, Printed (valueOfSeries terms).text (spellingOfSeries terms) := by
  have printable : ∀ item ∈ items, ∃ terms : Series Phrase, (terms.All Phrase.InOrder ∧
      Printed (valueOfSeries terms).text (spellingOfSeries terms)) ∧ valueOfSeries terms = item := by
    intro item member
    obtain ⟨terms, rfl, printed⟩ := each item member
    exact ⟨terms, printed, rfl⟩
  obtain ⟨series, shape, printed⟩ := exists_preimages printable
  exact ⟨series, shape, fun terms member => (printed terms member).1, fun terms member =>
    (printed terms member).2⟩

/-! ### One kind of term each -/

private theorem printable_type {form : TypeForm} {text : String} {doc : Option String}
    (token : Rewritable (form.tokenKind, text)) (documented : ∀ d ∈ doc, IsDoc d) :
    (Term.type form text doc).Printable := by
  cases form with
  | name =>
    have printed : Printed text _ := .name token.1 token.2
    exact ⟨.atom .name text doc, rfl, .atom, printed.documented documented⟩
  | string =>
    have printed : Printed ("\"" ++ text ++ "\"") _ := .string token.1 token.2
    exact ⟨.atom .string text doc, rfl, .atom, printed.documented documented⟩
  | regex =>
    have printed : Printed ("^" ++ text ++ "$") _ := .regex token.1 token.2
    exact ⟨.atom .regex text doc, rfl, .atom, printed.documented documented⟩

private theorem printable_coreference {tag : String} {doc : Option String}
    (token : Rewritable (.coreference, "#" ++ tag)) (documented : ∀ d ∈ doc, IsDoc d) :
    (Term.coreference (some tag) doc).Printable := by
  obtain ⟨tag', same, symbolic, noBar⟩ := token
  have injective : tag = tag' := by
    have chars := congrArg String.toList same
    rw [String.toList_append, String.toList_append] at chars
    exact String.toList_injective (List.append_cancel_left chars)
  subst injective
  have text : (Term.coreference (some tag) doc).text = docBefore doc ++ ("#" ++ tag) := by
    rw [Term.text, Term.outline, ← String.append_assoc]
    rfl
  refine ⟨.atom .coreference ("#" ++ tag) doc, ?_, .atom, ?_⟩
  · rw [Phrase.term, AtomKind.term, coreference_tag_append]
  · rw [text]
    exact (Printed.coreference symbolic noBar).documented documented

/-- The name and the value of a feature. -/
private def entryOf (feature : Series String × Series Phrase) : String × Conjunction :=
  (feature.1.first, valueOfSeries feature.2)

/-- The feature is written with its only name. -/
private def Single (feature : Series String × Series Phrase) : Prop :=
  feature.1.rest = [] ∧ upperCase feature.1.first = feature.1.first

private theorem of_single_features {features : List (Series String × Series Phrase)}
    (single : ∀ feature ∈ features, Single feature) (nodup : ((features.map entryOf).map (·.1)).Nodup) :
    Avm.ofPaths (valuesOfFeatures features) = { features := some (features.map entryOf), doc := none } := by
  have paths : valuesOfFeatures features =
      (features.map entryOf).map fun entry => ([entry.1], entry.2) := by
    rw [values_of_features, List.map_map]
    apply List.map_congr_left
    rintro ⟨⟨name, rest⟩, terms⟩ member
    obtain ⟨alone, upper⟩ := single _ member
    simp only at alone upper
    simp only [featurePath, Series.toList, alone, List.map_singleton, upper, Function.comp, entryOf]
  rw [paths]
  exact of_paths_of_nodup (fun entry => ([], entry.2)) (fun _ _ => rfl) nodup

private theorem term_of_single {features : List (Series String × Series Phrase)}
    (single : ∀ feature ∈ features, Single feature) (nodup : ((features.map entryOf).map (·.1)).Nodup)
    (doc : Option String) :
    (Phrase.avm features doc).term = .avm { features := some (features.map entryOf), doc } := by
  rw [Phrase.term, of_single_features single nodup]
  rfl

/-- Single names that differ are in order. -/
private theorem in_order_of_single {features : List (Series String × Series Phrase)}
    (single : ∀ feature ∈ features, Single feature) (nodup : ((features.map entryOf).map (·.1)).Nodup)
    (values : ∀ feature ∈ features, feature.2.All Phrase.InOrder) (doc : Option String) :
    (Phrase.avm features doc).InOrder := by
  refine .avm ?_ values
  rintro before ⟨⟨name, rest⟩, value⟩ after rfl
  obtain ⟨earlier, later⟩ := List.forall_mem_append.mp single
  obtain ⟨⟨alone, upper⟩, -⟩ := List.forall_mem_cons.mp later
  simp only at alone upper
  rw [List.map_append, List.map_append] at nodup
  obtain ⟨nodup', -, apart⟩ := List.nodup_append.mp nodup
  have path : featurePath ⟨name, rest⟩ = [name] := by
    rw [featurePath, Series.toList, alone, List.map_singleton, upper]
  rw [path, of_single_features earlier nodup']
  have absent : name ∉ (before.map entryOf).map (·.1) := fun member =>
    apart name member name (List.mem_cons_self ..) rfl
  have nothing : ∀ b, Term.avm b ∉ ([] : Conjunction) := fun b => List.not_mem_nil
  exact .absent nothing absent

private theorem text_of_entries {entries : Features} (nonempty : entries ≠ []) :
    (Term.avm { features := some entries, doc := none }).text =
      "[ " ++ ", ".intercalate (entries.map fun entry => entry.1 ++ " " ++ Conjunction.text entry.2) ++
        " ]" := by
  rw [Term.text_avm, docBefore, String.empty_append, Avm.entries, Option.getD_some,
    Features.written, if_neg (by simpa using nonempty), List.map_map]
  rfl

private theorem printable_avm {entries : Features} {doc : Option String}
    (documented : ∀ d ∈ doc, IsDoc d) (nodup : (entries.map (·.1)).Nodup)
    (names : ∀ entry ∈ entries, IsFeatureName entry.1)
    (values : ∀ entry ∈ entries, entry.2.Printable) :
    (Term.avm ⟨some entries, doc⟩).Printable := by
  have exist : ∀ entry ∈ entries, ∃ feature, (Single feature ∧ feature.2.All Phrase.InOrder ∧
      Printed ((entryOf feature).1 ++ " " ++ (entryOf feature).2.text) (spellingOfFeature feature)) ∧
        entryOf feature = entry := by
    intro entry member
    obtain ⟨name, value⟩ := entry
    obtain ⟨⟨symbolic, unmarked⟩, upper⟩ := names _ member
    obtain ⟨terms, rfl, inOrder, printed⟩ := values _ member
    have feature := (Printed.name symbolic unmarked).append separates_space printed
    exact ⟨(⟨name, []⟩, terms), ⟨⟨rfl, upper⟩, inOrder, feature⟩, rfl⟩
  obtain ⟨features, rfl, each⟩ := exists_preimages exist
  have single : ∀ feature ∈ features, Single feature := fun feature member => (each feature member).1
  have inOrder := in_order_of_single single nodup (fun feature member => (each feature member).2.1) doc
  refine ⟨.avm features doc, term_of_single single nodup doc, inOrder, ?_⟩
  have bare : (Term.avm ⟨some (features.map entryOf), none⟩).doc = none := rfl
  have closes := printed_closer (.inl rfl)
  have fixed : TokenKind.avmOpen.isSymbol = true := rfl
  rw [Phrase.spelling, spellings_of_features, List.append_assoc, List.append_assoc]
  refine printed_with_doc bare documented ?_
  by_cases empty : features = []
  · subst empty
    exact closes.opened fixed
  · have joined := Printed.joined separates_comma empty fun feature member => (each feature member).2.2
    rw [text_of_entries (by simpa using empty), List.map_map]
    exact joined.enclosed fixed closes rfl rfl

private theorem joined_append {separator : TokenKind} {parts : List Spelling} (nonempty : parts ≠ [])
    (last : Spelling) :
    joined separator (parts ++ [last]) = joined separator parts ++ symbol separator ++ last := by
  rw [joined_concat, opened_of_ne_nil separator nonempty]

private theorem printed_items {series : List (Series Phrase)} (nonempty : series ≠ [])
    (each : ∀ terms ∈ series, Printed (valueOfSeries terms).text (spellingOfSeries terms)) :
    Printed (", ".intercalate ((series.map valueOfSeries).map Conjunction.text))
      (joined .comma (series.map spellingOfSeries)) := by
  rw [List.map_map]
  exact Printed.joined separates_comma nonempty each

private theorem doc_of_list (items : List Conjunction) (last : Conjunction) :
    (Term.cons (ConsList.ofItems items last)).doc = none := doc_of_items items last

private theorem printed_list {items : List Conjunction} {last : Conjunction} {inner : String}
    {pieces : Spelling} (text : (Term.cons (ConsList.ofItems items last)).text = "< " ++ inner ++ " >")
    (printed : Printed inner pieces) :
    Printed (Term.cons (ConsList.ofItems items last)).text
      (symbol .consListOpen ++ (pieces ++ symbol .consListClose)) := by
  rw [text]
  exact printed.enclosed rfl (printed_closer (.inr (.inl rfl))) rfl rfl

section Lists

variable {series : List (Series Phrase)} {doc : Option String}
  (inOrder : ∀ terms ∈ series, terms.All Phrase.InOrder)
  (each : ∀ terms ∈ series, Printed (valueOfSeries terms).text (spellingOfSeries terms))
  (documented : ∀ d ∈ doc, IsDoc d)

include inOrder each documented

private theorem printable_closed :
    ((Term.cons (ConsList.ofItems (series.map valueOfSeries) [.named emptyListType])).withDoc
      doc).Printable := by
  refine ⟨.cons series .closed doc, ?_, .undotted (by simp) inOrder, ?_⟩
  · simp only [Phrase.term, values_of_items, Ending.values, List.append_nil]
  · have fixed : TokenKind.consListOpen.isSymbol = true := rfl
    have closed : ListEnd.of [.named emptyListType] = .closed := by decide
    rw [Phrase.spelling, spellings_of_items, Ending.spellings, List.append_nil, List.append_assoc,
      List.append_assoc]
    refine printed_with_doc (doc_of_list _ _) documented ?_
    by_cases none : series = []
    · subst none
      exact (printed_closer (.inr (.inl rfl))).opened fixed
    · refine printed_list ?_ (printed_items none each)
      rw [text_of_items (by simpa using none), closed]
      simp only [String.append_empty]

private theorem printable_open :
    ((Term.cons (ConsList.ofItems (series.map valueOfSeries) [.named openListType])).withDoc
      doc).Printable := by
  refine ⟨.cons series .ellipsis doc, ?_, .undotted (by simp) inOrder, ?_⟩
  · simp only [Phrase.term, values_of_items, Ending.values, List.append_nil]
  · have stays : ListEnd.of [.named openListType] = .open := by decide
    have mark : TokenKind.ellipsis.isSymbol = true := rfl
    have ellipsis : Printed "..." (symbol .ellipsis) := Printed.symbol mark (by simp) (by simp)
    rw [Phrase.spelling, spellings_of_items, Ending.spellings, List.append_assoc, List.append_assoc]
    refine printed_with_doc (doc_of_list _ _) documented ?_
    by_cases none : series = []
    · subst none
      exact printed_list rfl ellipsis
    · have inner := (printed_items none each).append separates_comma ellipsis
      rw [joined_append (by simpa using none)]
      refine printed_list ?_ inner
      have mark : ", ..." = ", " ++ "..." := rfl
      rw [text_of_items (by simpa using none), stays]
      simp only [mark, String.append_assoc]

private theorem printable_dotted {tail : Series Phrase} (nonempty : series ≠ [])
    (tailInOrder : tail.All Phrase.InOrder) (value : ListEnd.of (valueOfSeries tail) = .value)
    (printed : Printed (valueOfSeries tail).text (spellingOfSeries tail)) :
    ((Term.cons (ConsList.ofItems (series.map valueOfSeries) (valueOfSeries tail))).withDoc
      doc).Printable := by
  obtain ⟨before, last, rfl⟩ := exists_concat_of_ne_nil nonempty
  obtain ⟨earlier, ended⟩ := List.forall_mem_append.mp inOrder
  have lastInOrder := ended last (List.mem_singleton_self _)
  refine ⟨.cons before (.dotted last tail) doc, ?_, .cons earlier ?_ ?_, ?_⟩
  · rw [Phrase.term, values_of_items, Ending.values, List.map_append, List.map_singleton]
  · rintro _ _ ⟨⟩
    exact lastInOrder
  · rintro _ _ ⟨⟩
    exact tailInOrder
  · have dot : TokenKind.dot.isSymbol = true := rfl
    have inner := (printed_items nonempty each).append (separates_spaced dot) printed
    have pieces : joined .comma (before.map spellingOfSeries ++
        [spellingOfSeries last ++ symbol .dot ++ spellingOfSeries tail]) =
        joined .comma ((before ++ [last]).map spellingOfSeries) ++ symbol .dot ++
          spellingOfSeries tail := by
      rw [List.map_append, List.map_singleton, joined_concat, joined_concat]
      simp only [List.append_assoc]
    rw [Phrase.spelling, spellings_of_items, Ending.spellings, List.append_assoc, List.append_assoc,
      pieces]
    refine printed_with_doc (doc_of_list _ _) documented ?_
    refine printed_list ?_ inner
    have mark : " . " = " " ++ TokenKind.dot.description ++ " " := rfl
    rw [text_of_items (by simp), value]
    simp only [mark, String.append_assoc]

private theorem printable_diff :
    ((Term.diff (DiffList.ofValues (series.map valueOfSeries))).withDoc doc).Printable := by
  refine ⟨.diff series doc, ?_, .diff inOrder, ?_⟩
  · rw [Phrase.term, values_of_items]
  · have bare : (Term.diff (DiffList.ofValues (series.map valueOfSeries))).doc = none := by
      rw [Term.doc, avm_of_values]
    have closes := printed_closer (.inr (.inr rfl))
    have fixed : TokenKind.diffListOpen.isSymbol = true := rfl
    rw [Phrase.spelling, spellings_of_items, List.append_assoc, List.append_assoc]
    refine printed_with_doc bare documented ?_
    by_cases none : series = []
    · subst none
      exact closes.opened fixed
    · rw [text_of_values (by simpa using none)]
      exact (printed_items none each).enclosed fixed closes rfl rfl

end Lists

/-- The text of every term that can be written is that of a phrase with its value. -/
theorem Term.Writable.printable {t : Term} (writable : t.Writable) : t.Printable := by
  induction writable with
  | type token documented => exact printable_type token documented
  | coreference token documented => exact printable_coreference token documented
  | avm documented nodup names some values ih =>
    exact printable_avm documented nodup names fun entry member =>
      Conjunction.printable (some entry member) (ih entry member)
  | @cons items last doc documented some values ending tail ih ihTail =>
    obtain ⟨series, rfl, inOrder, each⟩ := exists_series fun item member =>
      Conjunction.printable (some item member) (ih item member)
    rcases ending with rfl | rfl | ⟨value, ended, nonempty⟩
    · exact printable_closed inOrder each documented
    · exact printable_open inOrder each documented
    · obtain ⟨terms, rfl, tailInOrder, printed⟩ := Conjunction.printable ended (ihTail value)
      exact printable_dotted inOrder each documented (by simpa using nonempty) tailInOrder value printed
  | diff documented some values ih =>
    obtain ⟨series, rfl, inOrder, each⟩ := exists_series fun item member =>
      Conjunction.printable (some item member) (ih item member)
    exact printable_diff inOrder each documented

end TypeDescription
