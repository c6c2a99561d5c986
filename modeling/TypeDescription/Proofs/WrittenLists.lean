import TypeDescription.Proofs.Blame
import TypeDescription.Proofs.CoreferenceSets
import TypeDescription.Proofs.ListCalls

/-!
What is written can be built. Lists are built by calls that can fail, and so are the sets of
coreferences, but the grammar lets no text make such a call fail: items come before the end of a
list, only a list with an item has a dotted tail, and the two ends of a difference list are at paths
that differ. So the lists of an event are those that are written, each at its path, and each knows
how many items it holds and whether it is closed.
-/

namespace TypeDescription

/-! ## What an error is about -/

namespace Cause

/-- Is this a reason to refuse a text? A call on a closed list, a dotted tail of no items and a
difference list without an end are none. -/
def isOfText : Cause → Bool
  | .closedList | .invalidEmptyList | .solitaryCoreference none _ => false
  | _ => true

theorem is_of_text_of_grammar {cause : Cause} (grammar : cause.isOfGrammar = true) :
    cause.isOfText = true := by
  cases cause <;> first | rfl | cases grammar

theorem is_of_text_of_scan {cause : Cause} (scanned : cause.isOfScan = true) :
    cause.isOfText = true := by
  cases cause <;> first | rfl | cases scanned

end Cause

/-- The cause of this fault, if there is one, is a reason to refuse a text. -/
def FaultOfText (fault : Option Error) : Prop := ∀ e ∈ fault, e.cause.isOfText = true

namespace Reader

variable {fault : Option Error}

/-- What a token is refused for is a reason to refuse a text. -/
theorem cause_of_read {reader : Reader} {t : Token} {e : Error} (refused : reader.read t = .error e) :
    e.cause.isOfText = true := by
  obtain ⟨-, grammar | ⟨d, meant⟩⟩ := refusal_of_read refused
  · exact Cause.is_of_text_of_grammar grammar
  · obtain same | ⟨tag, path, same⟩ := Declaration.cause_of_event meant <;> rw [same] <;> rfl

theorem cause_of_end (reader : Reader) (passed : FaultOfText fault) :
    FaultOfText (reader.endFault fault) := by
  cases reader with
  | idle => exact passed
  | within identifier line stage =>
    intro e ends
    cases fault with
    | none =>
      cases ends
      rfl
    | some f =>
      cases ends
      exact passed f rfl

/-- However many tokens are read, a reason to refuse a text is what they end with, if they end with an
error. -/
theorem cause_of_run (reader : Reader) (tokens : List Token) (passed : FaultOfText fault) :
    FaultOfText (reader.run fault tokens).error := by
  induction tokens generalizing reader with
  | nil => exact reader.cause_of_end passed
  | cons t rest ih =>
    rw [run]
    cases answer : reader.read t with
    | ok step => exact ih step.reader
    | error e =>
      intro e' ends
      cases ends
      exact cause_of_read answer

end Reader

theorem cause_of_scan (source : Source) : FaultOfText source.scan.error := by
  intro fault failed
  obtain ⟨reason, -, rfl⟩ | ⟨cause, line, scanned, -, rfl⟩ := scan_lines_fault (none_unclosed 0) failed
  · rfl
  · exact Cause.is_of_text_of_scan scanned

theorem cause_of_read (options : ReadOptions) (source : Source) :
    FaultOfText (source.read options).error := by
  intro e failed
  rw [read_eq_apply, ReadOptions.error_apply] at failed
  obtain ⟨e', failed', rfl⟩ := Option.map_eq_some_iff.mp failed
  have passed := Reader.idle.cause_of_run source.scan.tokens (cause_of_scan source) e' failed'
  obtain ⟨name, comments⟩ := options
  cases name <;> exact passed

/-! ## Lists as they are written -/

/-- Does a written list stay open? It does if it ends in an ellipsis, or if nothing but the type of
open lists follows its dot. A quoted symbol is an old spelling of a name. -/
def Ending.LeavesOpen : Ending → Prop
  | .closed => False
  | .ellipsis => True
  | .dotted _ tail => ∃ kind doc, (kind = .name ∨ kind = .quoted) ∧ tail = ⟨.atom kind openListType doc, []⟩

theorem term_eq_name_iff {p : Phrase} {text : String} {doc : Option String} :
    p.term = .type .name text doc ↔ ∃ kind, (kind = .name ∨ kind = .quoted) ∧ p = .atom kind text doc := by
  cases p with
  | atom kind text' doc' => cases kind <;> simp [Phrase.term, AtomKind.term]
  | avm features doc' => simp [Phrase.term, Term.withDoc]
  | cons items ending doc' => simp [Phrase.term, Term.withDoc]
  | diff items doc' => simp [Phrase.term, Term.withDoc]

/-- The value of an ending leaves a list open if it is written so. -/
theorem list_end_of_ending (ending : Ending) : ListEnd.of ending.values.2 = .open ↔ ending.LeavesOpen := by
  cases ending with
  | closed => exact iff_of_false (by decide) id
  | ellipsis => exact iff_of_true (by decide) trivial
  | dotted last tail =>
    obtain ⟨first, rest⟩ := tail
    have alone : IsLone openListType (valueOfSeries ⟨first, rest⟩) ↔
        ∃ doc, first.term = .type .name openListType doc ∧ rest = [] := by
      simp [IsLone, value_of_series, Series.toList]
    rw [Ending.values, list_end_open_iff, alone, Ending.LeavesOpen]
    simp only [term_eq_name_iff]
    constructor
    · rintro ⟨doc, ⟨kind, spelled, rfl⟩, rfl⟩
      exact ⟨kind, doc, spelled, rfl⟩
    · rintro ⟨kind, doc, spelled, same⟩
      obtain ⟨rfl, rfl⟩ := Series.mk.inj same
      exact ⟨doc, ⟨kind, spelled, rfl⟩, rfl⟩

/-- No call fails when a list is built as it is written. -/
theorem of_values_written (items : List (Series Phrase)) (ending : Ending) :
    ConsList.ofValues (valuesOfItems items ++ ending.values.1) ending.values.2 =
      .ok (ConsList.ofItems (valuesOfItems items ++ ending.values.1) ending.values.2) := by
  -- Only a dotted tail can be a value, and an item is written before it.
  have allowed : ¬ (valuesOfItems items ++ ending.values.1 = [] ∧ ListEnd.of ending.values.2 = .value) := by
    rintro ⟨none, value⟩
    cases ending with
    | closed => exact absurd value (by decide)
    | ellipsis => exact absurd value (by decide)
    | dotted last tail => exact List.cons_ne_nil _ _ (List.append_eq_nil_iff.mp none).2
  rw [ConsList.of_values_eq, if_neg allowed, ConsList.of_items]

/-- What a list says of itself is so. -/
structure ConsList.Sound (l : ConsList) : Prop where
  length : l.length = l.values.length
  lastPath : l.lastPath = (tailPath l.length).text
  null : l.avm.isNull = true ↔ l.length = 0 ∧ l.terminated = true

theorem ConsList.sound_of_holding (items : List Conjunction) (last : Option Conjunction) (doc : Option String) :
    ConsList.Sound { holding items last with avm := { (holding items last).avm with doc } } where
  length := by rw [values_with_doc, values_holding, holding]
  lastPath := rfl
  null := by
    have null := (holding_behaves items last).null
    rw [← List.length_eq_zero_iff] at null
    exact null

/-- Only a list is written for a list, and the list is closed unless it is written as one that stays open. -/
theorem written_of_term {p : Phrase} {l : ConsList} (value : p.term = .cons l) :
    l.Sound ∧ ∃ items ending doc, p = .cons items ending doc ∧ (l.terminated = true ↔ ¬ ending.LeavesOpen) := by
  cases p with
  | atom kind text doc => cases kind <;> cases value
  | avm features doc => cases value
  | diff items doc => cases value
  | cons items ending doc =>
    have made : (Phrase.cons items ending doc).term =
        Term.withDoc doc (.cons (ConsList.ofItems (valuesOfItems items ++ ending.values.1) ending.values.2)) := rfl
    rw [made, ConsList.of_items] at value
    cases value
    refine ⟨ConsList.sound_of_holding _ _ doc, items, ending, doc, rfl, ?_⟩
    rw [← list_end_of_ending, ConsList.holding]
    by_cases stays : ListEnd.of ending.values.2 = .open <;> simp [stays]

/-! ## Phrases inside phrases -/

/-- The items of a chain, with the routes that lead to them. -/
def itemParts (items : List (Series Phrase)) : List (Path × Series Phrase) :=
  items.zipIdx.map fun (item, index) => (itemPath index, item)

/-- What an ending adds to the parts of a list with that many items. -/
def Ending.parts (length : Nat) : Ending → List (Path × Series Phrase)
  | .closed | .ellipsis => []
  | .dotted last tail => [(itemPath length, last), (tailPath (length + 1), tail)]

/-- The joined terms that are right inside a phrase, with the routes that lead to them. -/
def Phrase.parts : Phrase → List (Path × Series Phrase)
  | .atom .. => []
  | .avm features _ => features.map fun (names, value) => (featurePath names, value)
  | .cons items ending _ => itemParts items ++ ending.parts items.length
  | .diff items _ => (itemParts items).map fun (route, item) => (diffListChain :: route, item)

theorem item_of_mem_item_parts {items : List (Series Phrase)} {part : Path × Series Phrase}
    (member : part ∈ itemParts items) : part.2 ∈ items := by
  obtain ⟨⟨item, index⟩, inside, rfl⟩ := List.mem_map.mp member
  exact List.fst_mem_of_mem_zipIdx inside

/-- What holds of a phrase whenever it holds of all parts of it holds of every phrase. -/
theorem Phrase.induct_parts {P : Phrase → Prop} (step : ∀ p : Phrase, (∀ part ∈ p.parts, part.2.All P) → P p)
    (p : Phrase) : P p := by
  induction p using Phrase.induct with
  | atom kind text doc => exact step _ fun part member => nomatch member
  | avm features doc ih =>
    refine step _ fun part member => ?_
    obtain ⟨feature, inside, rfl⟩ := List.mem_map.mp member
    exact ih feature inside
  | cons items ending doc ih ihEnding =>
    refine step _ fun part member => ?_
    rcases List.mem_append.mp member with member | member
    · exact ih _ (item_of_mem_item_parts member)
    · cases ending with
      | closed => cases member
      | ellipsis => cases member
      | dotted last tail =>
        obtain ⟨ihLast, ihTail⟩ := ihEnding last tail rfl
        rw [Ending.parts, List.mem_pair] at member
        obtain rfl | rfl := member
        · exact ihLast
        · exact ihTail
  | diff items doc ih =>
    refine step _ fun part member => ?_
    obtain ⟨item, inside, rfl⟩ := List.mem_map.mp member
    exact ih item.2 (item_of_mem_item_parts inside)

/-- A phrase is written at a path, in another one that stands at a path. -/
inductive Phrase.WrittenIn (q : Phrase) (path : Path) : Phrase → Path → Prop where
  | self : WrittenIn q path q path
  | part {p inner : Phrase} {here route : Path} {terms : Series Phrase} (right : (route, terms) ∈ p.parts)
    (joined : inner ∈ terms.toList) (inside : WrittenIn q path inner (here ++ route)) : WrittenIn q path p here

/-- A phrase is written at a path of a body. -/
def Body.Writes (path : Path) (q : Phrase) : Body → Prop
  | .docOnly _ => False
  | .joined terms _ => ∃ p ∈ terms.toList, q.WrittenIn path p []

/-- The terms in the values of parts, with their paths. -/
def placedParts (here : Path) (parts : List (Path × Series Phrase)) : List (Path × Term) :=
  parts.flatMap fun (route, terms) => (valueOfSeries terms).flatMap (Term.placed (here ++ route))

theorem mem_placed_parts {here : Path} {parts : List (Path × Series Phrase)} {place : Path × Term} :
    place ∈ placedParts here parts ↔
      ∃ route terms, (route, terms) ∈ parts ∧ ∃ p ∈ terms.toList, place ∈ p.term.placed (here ++ route) := by
  simp [placedParts, value_of_series, List.mem_flatMap]

theorem placed_item_parts (here : Path) (items : List (Series Phrase)) :
    placedItems here 0 (items.map valueOfSeries) = placedParts here (itemParts items) := by
  simp [placedItems, placedParts, itemParts, List.zipIdx_map, List.flatMap_map]

theorem placed_parts_below (here : Path) (name : String) (parts : List (Path × Series Phrase)) :
    placedParts here (parts.map fun (route, terms) => (name :: route, terms)) =
      placedParts (here ++ [name]) parts := by
  simp [placedParts, List.flatMap_map]

theorem placed_parts_append (here : Path) (first second : List (Path × Series Phrase)) :
    placedParts here (first ++ second) = placedParts here first ++ placedParts here second :=
  List.flatMap_append

section Lists

variable {here path : Path} {l : ConsList}

/-- A list at the end of a list is in what is written there. The marks of an end have none. -/
private theorem list_in_ending (items : List (Series Phrase)) (ending : Ending) :
    (path, Term.cons l) ∈ placedItems here 0 (items.map valueOfSeries ++ ending.values.1) ++
        (if items.map valueOfSeries ++ ending.values.1 = [] ∨ ListEnd.of ending.values.2 = .open then []
          else ending.values.2.flatMap
            (Term.placed (here ++ tailPath (items.map valueOfSeries ++ ending.values.1).length))) ↔
      (path, Term.cons l) ∈ placedParts here (itemParts items ++ ending.parts items.length) := by
  have mark (here : Path) (name : String) (doc : Option String) :
      (path, Term.cons l) ∉ [Term.type .name name doc].flatMap (Term.placed here) := by
    simp [Term.placed]
  cases ending with
  | closed =>
    rw [Ending.values, Ending.parts, List.append_nil, List.append_nil, placed_item_parts, List.mem_append]
    refine or_iff_left ?_
    split
    · exact List.not_mem_nil
    · exact mark _ _ _
  | ellipsis =>
    have stays : ListEnd.of [.named openListType] = .open := by decide
    simp only [Ending.values, Ending.parts, List.append_nil, stays, or_true, ↓reduceIte, placed_item_parts]
  | dotted last tail =>
    have some : items.map valueOfSeries ++ [valueOfSeries last] ≠ [] := by simp
    have length : (items.map valueOfSeries ++ [valueOfSeries last]).length = items.length + 1 := by simp
    rw [placed_parts_append, Ending.values, Ending.parts, placed_items_append, placed_item_parts, length,
      List.length_map, List.append_assoc, placedParts, placedParts, List.flatMap_cons, List.flatMap_singleton]
    simp only [List.mem_append, some, false_or]
    refine or_congr_right (or_congr_right ?_)
    split
    · next stays =>
      obtain ⟨doc, alone⟩ := list_end_open_iff.mp stays
      rw [alone]
      exact iff_of_false List.not_mem_nil (mark _ _ _)
    · exact Iff.rfl

/-- A list in the value of a phrase is that value, or it is in a part. -/
theorem list_in_phrase {p : Phrase} :
    (path, Term.cons l) ∈ p.term.placed here ↔
      path = here ∧ p.term = .cons l ∨ (path, Term.cons l) ∈ placedParts here p.parts := by
  cases p with
  | atom kind text doc => cases kind <;> simp [Phrase.term, AtomKind.term, Term.placed, Phrase.parts, placedParts]
  | avm features doc =>
    have other : ¬ (path = here ∧ (Phrase.avm features doc).term = .cons l) := by
      rintro ⟨-, value⟩
      cases value
    rw [(placed_avm_phrase here features doc).mem_iff, Phrase.parts, placedParts, List.flatMap_map]
    exact (or_iff_right other).symm
  | diff items doc =>
    rw [(placed_diff_phrase here items doc).mem_iff, Phrase.parts, placed_parts_below, placed_item_parts]
    simp [Phrase.term, Term.withDoc]
  | cons items ending doc =>
    rw [(placed_cons_phrase here items ending doc).mem_iff, Phrase.parts, List.mem_cons, list_in_ending,
      Prod.mk.injEq, eq_comm (a := Term.cons l)]

/-- The lists in the value of a phrase are the values of the lists written in it, each at its path. -/
theorem list_in_phrase_iff_written {p : Phrase} :
    (path, Term.cons l) ∈ p.term.placed here ↔ ∃ q : Phrase, q.WrittenIn path p here ∧ q.term = .cons l := by
  constructor
  · intro inside
    induction p using Phrase.induct_parts generalizing here with
    | step p ih =>
      obtain ⟨rfl, value⟩ | inside := list_in_phrase.mp inside
      · exact ⟨p, .self, value⟩
      · obtain ⟨route, terms, right, q, joined, inside⟩ := mem_placed_parts.mp inside
        obtain ⟨q', written, value⟩ := ih _ right q joined inside
        exact ⟨q', .part right joined written, value⟩
  · rintro ⟨q, written, value⟩
    induction written with
    | self => exact list_in_phrase.mpr (.inl ⟨rfl, value⟩)
    | part right joined _ ih => exact list_in_phrase.mpr (.inr (mem_placed_parts.mpr ⟨_, _, right, _, joined, ih⟩))

theorem list_in_body_iff_written {body : Body} :
    (path, Term.cons l) ∈ body.conjunction.placed ↔ ∃ q, body.Writes path q ∧ q.term = .cons l := by
  cases body with
  | docOnly doc => simp [Body.conjunction, Conjunction.placed, Body.Writes]
  | joined terms doc =>
    rw [Body.conjunction, Conjunction.placed, placed_in_terms, value_of_series, List.flatMap_map, List.mem_flatMap]
    simp only [list_in_phrase_iff_written, Body.Writes]
    constructor
    · rintro ⟨p, inside, q, written, value⟩
      exact ⟨q, ⟨p, inside, written⟩, value⟩
    · rintro ⟨q, ⟨p, inside, written⟩, value⟩
      exact ⟨p, inside, q, written, value⟩

end Lists

/-! ## Lists that are read -/

/-- What is written can be built. No error of a source is about a closed list, about a dotted tail of
no items or about a coreference without a tag, and none of the calls by which a list is built as it is
written fails. Whatever list there is in an event, what it says of itself is so, and it was written at
its path in the definition that is read; it is closed unless it was written as a list that stays
open. -/
theorem builders_never_refuse (options : ReadOptions) (source : Source) :
    (∀ e, (source.read options).error = some e →
      e.cause ≠ .closedList ∧ e.cause ≠ .invalidEmptyList ∧ ∀ path, e.cause ≠ .solitaryCoreference none path) ∧
    (∀ (items : List (Series Phrase)) (ending : Ending),
      ConsList.ofValues (valuesOfItems items ++ ending.values.1) ending.values.2 =
        .ok (ConsList.ofItems (valuesOfItems items ++ ending.values.1) ending.values.2)) ∧
    ∀ e ∈ (source.read options).events, ∀ d, e.definition? = some d →
      ∃ (declared : Declaration) (name dot : Token) (inner : List Token),
        (Item.definition declared name inner dot).Grammatical ∧
        (Item.definition declared name inner dot).tokens ⊆ source.scan.tokens ∧
        declared.event = .ok e ∧
        ∀ path l, (path, Term.cons l) ∈ d.conjunction.placed →
          l.Sound ∧ ∃ items ending doc, declared.body.Writes path (.cons items ending doc) ∧
            (Phrase.cons items ending doc).term = .cons l ∧ (l.terminated = true ↔ ¬ ending.LeavesOpen) := by
  refine ⟨fun e failed => ?_, of_values_written, fun e member d defined => ?_⟩
  · have ofText := cause_of_read options source e failed
    refine ⟨?_, ?_, fun path => ?_⟩
    all_goals
      intro same
      rw [same] at ofText
      cases ofText
  · obtain ⟨declared, name, dot, inner, grammatical, inside, meant⟩ :=
      exists_declaration (mem_read_all_events member) defined
    refine ⟨declared, name, dot, inner, grammatical, inside, meant, fun path l placed => ?_⟩
    rw [Declaration.conjunction_of_event meant defined] at placed
    obtain ⟨q, written, value⟩ := list_in_body_iff_written.mp placed
    obtain ⟨sound, items, ending, doc, rfl, closed⟩ := written_of_term value
    exact ⟨sound, items, ending, doc, written, value, closed⟩

/-- The path of a list, its length, and whether it is closed. -/
def listAt? : Path × Term → Option (Path × Nat × Bool)
  | (path, .cons l) => some (path, l.length, l.terminated)
  | _ => none

/-- A list that stays open has an empty list in it; another list is an item of a difference list, and its
tail is shared with an item. In the second definition a tag stands alone. -/
theorem builders_never_refuse_nested_lists :
    let source := Source.ofText "a := b & < < >, c . *list* > & [ F <! < d . #1 >, #1 !> ].\ne := #2 & f."
    (∃ e, (source.read .plain).error = some e ∧ ∀ path, e.cause ≠ .solitaryCoreference none path) ∧
      ∃ e ∈ (source.read .plain).events, ∃ d, e.definition? = some d ∧
        (∃ l, ([], Term.cons l) ∈ d.conjunction.placed ∧ l.length = 2 ∧ l.terminated = false ∧ l.Sound) ∧
        (∃ l, (["FIRST"], Term.cons l) ∈ d.conjunction.placed ∧ l.length = 0 ∧ l.terminated = true ∧ l.Sound) ∧
        ∃ l, (["F", "LIST", "FIRST"], Term.cons l) ∈ d.conjunction.placed ∧ l.length = 1 ∧
          l.terminated = true ∧ l.Sound := by
  intro source
  obtain ⟨causes, -, built⟩ := builders_never_refuse .plain source
  have failed : (source.read .plain).error =
      some { cause := .solitaryCoreference (some "2") "", line := some 2, source := none, identifier := some "e" } := by
    decide +kernel
  have shape : (source.read .plain).events.map
      (fun e => e.definition?.map fun d => d.conjunction.placed.filterMap listAt?) =
      [some [([], 2, false), (["FIRST"], 0, true), (["F", "LIST", "FIRST"], 1, true)]] := by
    decide +kernel
  obtain ⟨e, only, view⟩ := List.map_eq_singleton_iff.mp shape
  obtain ⟨d, defined, lists⟩ := Option.map_eq_some_iff.mp view
  have member : e ∈ (source.read .plain).events := only ▸ List.mem_singleton_self e
  obtain ⟨_, _, _, _, -, -, -, read⟩ := built e member d defined
  have found {path : Path} {length : Nat} {closed : Bool}
      (listed : (path, length, closed) ∈ d.conjunction.placed.filterMap listAt?) :
      ∃ l, (path, Term.cons l) ∈ d.conjunction.placed ∧ l.length = length ∧ l.terminated = closed ∧ l.Sound := by
    obtain ⟨⟨path', t⟩, placed, view⟩ := List.mem_filterMap.mp listed
    cases t with
    | cons l =>
      cases view
      exact ⟨l, placed, rfl, rfl, (read path l placed).1⟩
    | _ => cases view
  rw [lists] at found
  exact ⟨⟨_, failed, (causes _ failed).2.2⟩, e, member, d, defined, found (by simp), found (by simp), found (by simp)⟩

end TypeDescription
