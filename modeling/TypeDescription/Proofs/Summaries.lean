import Mathlib.Algebra.Ring.Nat
import TypeDescription.CommandLine
import TypeDescription.Proofs.CoreferenceSets
import TypeDescription.Proofs.WrittenTokens

/-!
How many lines the line for an event takes up. It shows the supertypes of a definition with their
docstrings, and a docstring may reach over several lines; nothing else that it shows can hold a line
feed. So the line for a letter set or a comment is one line, and the line for a definition is one if
and only if no docstring of a supertype has a line feed in it.
-/

namespace TypeDescription

/-! ## Line feeds of texts -/

/-- The number of line feeds in a text. -/
def feeds (text : String) : Nat := text.toList.count '\n'

@[simp] theorem feeds_append (first second : String) : feeds (first ++ second) = feeds first + feeds second := by
  rw [feeds, String.toList_append, List.count_append]
  rfl

theorem feeds_eq_zero_iff {text : String} : feeds text = 0 ↔ '\n' ∉ text.toList := List.count_eq_zero

@[simp] theorem feeds_of_count (n : Nat) : feeds (toString n) = 0 := by
  refine feeds_eq_zero_iff.mpr fun member => ?_
  have digits : (toString n).toList = Nat.toDigits 10 n := String.toList_ofList
  rw [digits] at member
  have digit := Nat.isDigit_of_mem_toDigits (by decide) (Nat.le_refl 10) member
  cases digit

/-- Texts that are joined have their own line feeds if there is none between them. -/
theorem feeds_intercalate {between : String} (plain : feeds between = 0) (texts : List String) :
    feeds (between.intercalate texts) = (texts.map feeds).sum := by
  induction texts with
  | nil => rfl
  | cons text rest ih =>
    cases rest with
    | nil => simp
    | cons next rest =>
      rw [String.intercalate_cons_cons, feeds_append, feeds_append, ih, plain, Nat.add_zero]
      rfl

/-! ## Texts of terms -/

/-- The line feeds in the docstring of a term. -/
def Term.docFeeds (t : Term) : Nat := (t.doc.map feeds).getD 0

theorem Term.doc_feeds_eq_zero_iff {t : Term} : t.docFeeds = 0 ↔ ∀ doc ∈ t.doc, '\n' ∉ doc.toList := by
  rw [docFeeds]
  cases t.doc <;> simp [feeds_eq_zero_iff]

/-- A type whose own text is on one line is written with the line feeds of its docstring. -/
theorem feeds_of_type {form : TypeForm} {text : String} {doc : Option String} (plain : '\n' ∉ text.toList) :
    feeds (Term.text (.type form text doc)) = (Term.type form text doc).docFeeds := by
  have shape : Term.text (.type form text doc) = docBefore doc ++ form.written text := rfl
  have bare : feeds (form.written text) = 0 := by
    have none : feeds text = 0 := feeds_eq_zero_iff.mpr plain
    cases form with
    | name => exact none
    | string | regex =>
      rw [TypeForm.written, feeds_append, feeds_append, none]
      rfl
  rw [shape, feeds_append, bare, Nat.add_zero, Term.docFeeds, Term.doc]
  cases doc with
  | none => rfl
  | some doc =>
    rw [docBefore, feeds_append, feeds_append]
    exact Nat.zero_add _

/-! ## Lines for events -/

/-- The terms whose texts the line for an event shows. -/
def Event.supertypes (event : Event) : List Term := (event.definition?.map fun d => d.conjunction.types).getD []

/-- The name of a definition and its types are each on one line, docstrings apart. -/
structure Definition.OnLines (d : Definition) : Prop where
  name : '\n' ∉ d.identifier.toList
  types : ∀ form text doc, .type form text doc ∈ d.conjunction.types → '\n' ∉ text.toList

theorem Definition.OnLines.feeds_summary {d : Definition} (onLines : d.OnLines) (kind : String) :
    feeds (d.summary kind) = feeds kind + (d.conjunction.types.map Term.docFeeds).sum := by
  have shown : (d.conjunction.types.map Term.text).map feeds = d.conjunction.types.map Term.docFeeds := by
    rw [List.map_map]
    refine List.map_congr_left fun t member => ?_
    cases t with
    | type form text doc => exact feeds_of_type (onLines.types form text doc member)
    | _ => cases (List.mem_filter.mp member).2
  have plain : ∀ text ∈ [" ", " [", " & ", "] ", " features, ", " coreferences"], feeds text = 0 := by decide
  simp only [List.forall_mem_cons] at plain
  obtain ⟨space, opens, between, closes, features, coreferences, -⟩ := plain
  rw [Definition.summary]
  simp only [feeds_append, feeds_of_count, feeds_intercalate between, shown, feeds_eq_zero_iff.mpr onLines.name,
    space, opens, closes, features, coreferences, Nat.add_zero]

/-- The line for an event has the line feeds of the docstrings of its supertypes, and one at its end. -/
theorem Event.summary_feeds {event : Event} (onLines : ∀ d ∈ event.definition?, d.OnLines) :
    ∃ line, event.summary = line ++ "\n" ∧ feeds line = (event.supertypes.map Term.docFeeds).sum := by
  cases event with
  | definition d =>
    refine ⟨_, rfl, ?_⟩
    have kind : feeds (if d.isAddendum then "addendum" else "type") = 0 := by split <;> rfl
    rw [(onLines d rfl).feeds_summary, kind, Nat.zero_add]
    rfl
  | rule r =>
    let before := r.definition.summary "rule" ++ ", " ++ toString r.affixes.length ++ " " ++ r.side.word
    have last : " affixes\n" = " affixes" ++ "\n" := by decide
    refine ⟨before ++ " affixes", (congrArg (before ++ ·) last).trans (String.append_assoc ..).symm, ?_⟩
    have side : feeds r.side.word = 0 := by cases r.side <;> rfl
    have plain : ∀ text ∈ ["rule", ", ", " ", " affixes"], feeds text = 0 := by decide
    simp only [List.forall_mem_cons] at plain
    obtain ⟨rule, comma, space, affixes, -⟩ := plain
    simp only [before, feeds_append, feeds_of_count, (onLines r.definition rfl).feeds_summary, side, rule, comma,
      space, affixes, Nat.add_zero, Nat.zero_add]
    rfl
  | letterSet text line =>
    refine ⟨_, rfl, ?_⟩
    rw [feeds_append, feeds_of_count]
    rfl
  | lineComment text line | blockComment text line =>
    refine ⟨_, rfl, ?_⟩
    rw [feeds_append, feeds_of_count]
    rfl

/-! ## Events of a source -/

/-- A token that can be a term is on one line. -/
theorem atom_text_plain {source : Source} (areLines : AreLines source.lines) {t : Token}
    (member : t ∈ source.scan.tokens) {atom : AtomKind} (kind : t.kind = atom.tokenKind) : '\n' ∉ t.text.toList := by
  have apart : ∀ enclosure : Enclosure, t.kind ≠ enclosure.kind := by
    intro enclosure
    rw [kind]
    cases atom <;> cases enclosure <;> decide
  have written := (scan_tokens_alone areLines t member apart).plain
  intro feed
  refine written ?_
  rw [Token.written, kind]
  cases atom <;> simp [Token.spelling, AtomKind.tokenKind, feed]

/-- A type is written as one token. -/
theorem atom_of_type {p : Phrase} {form : TypeForm} {text : String} {doc : Option String}
    (value : p.term = .type form text doc) : ∃ atom : AtomKind, (atom.tokenKind, text) ∈ p.spelling := by
  cases p with
  | atom kind text' doc' =>
    refine ⟨kind, ?_⟩
    cases kind <;> cases value <;> simp [Phrase.spelling]
  | avm | cons | diff =>
    rw [Phrase.term] at value
    cases value

theorem on_lines_of_read {source : Source} (areLines : AreLines source.lines) {options : ReadOptions}
    {d : Definition} (member : d ∈ (source.read options).definitions) : d.OnLines where
  name := by
    obtain ⟨t, inTokens, kind, text⟩ := exists_name member
    have named : t.kind = AtomKind.name.tokenKind := kind
    exact text ▸ atom_text_plain areLines inTokens named
  types := by
    intro form text doc inside
    obtain ⟨p, value, spelled⟩ := exists_phrase member (List.mem_filter.mp inside).1
    obtain ⟨atom, written⟩ := atom_of_type value
    obtain ⟨t, inTokens, bare⟩ := spelled _ written
    obtain ⟨kind, rfl⟩ := Prod.mk.inj bare
    exact atom_text_plain areLines inTokens kind

/-- The line for an event is as many lines as the docstrings of its supertypes make of it. Whatever is
read, it ends with a line feed, and before that it has the line feeds of these docstrings and no other;
so it is one line if and only if none of them reaches over several lines. -/
theorem summary_of_read (bytes : List UInt8) (failure : Option String) (options : ReadOptions) {event : Event}
    (member : event ∈ ((Source.ofBytes bytes failure).read options).events) {settings : Settings}
    (wanted : settings.summary = true) :
    ∃ line, settings.shown event = line ++ "\n" ∧ feeds line = (event.supertypes.map Term.docFeeds).sum ∧
      ('\n' ∉ line.toList ↔ ∀ t ∈ event.supertypes, ∀ doc ∈ t.doc, '\n' ∉ doc.toList) := by
  have onLines : ∀ d ∈ event.definition?, d.OnLines := fun d defined =>
    on_lines_of_read (of_bytes_are_lines bytes failure) (List.mem_filterMap.mpr ⟨event, member, defined⟩)
  obtain ⟨line, shape, count⟩ := event.summary_feeds onLines
  refine ⟨line, by rw [Settings.shown, if_pos wanted, shape], count, ?_⟩
  rw [← feeds_eq_zero_iff, count, List.sum_eq_zero_iff_forall_eq_nat]
  simp only [List.forall_mem_map, Term.doc_feeds_eq_zero_iff]

/-- The docstring of the definition reaches over two lines, but only that of its first supertype is shown. -/
theorem summary_of_read_above_docstring :
    let source := Source.ofBytes "a :=\n%suffix (b c)\n\"\"\"d\"\"\" e & f\n\"\"\"g\nh\"\"\".".toUTF8.data.toList none
    let settings : Settings := { comments := true, quiet := false, summary := true }
    ∃ event ∈ (source.read .plain).events, settings.summary = true ∧ ∃ line,
      settings.shown event = line ++ "\n" ∧
        line = "rule a [\"\"\"d\"\"\" e & f] 0 features, 0 coreferences, 1 suffix affixes" ∧
        feeds line = (event.supertypes.map Term.docFeeds).sum ∧ '\n' ∉ line.toList := by
  intro source settings
  have events : (source.read .plain).events.map Event.summary =
      ["rule a [\"\"\"d\"\"\" e & f] 0 features, 0 coreferences, 1 suffix affixes\n"] := by decide +kernel
  have plain : (source.read .plain).events.all (fun event => event.supertypes.all (·.docFeeds = 0)) = true := by
    decide +kernel
  obtain ⟨event, rest, shape, shown, -⟩ := List.map_eq_cons_iff.mp events
  have member : event ∈ (source.read .plain).events := shape ▸ List.mem_cons_self ..
  obtain ⟨line, ends, count, single⟩ := @summary_of_read _ none .plain event member settings rfl
  refine ⟨event, member, rfl, line, ends, ?_, count, single.mpr fun t inside => ?_⟩
  · have same : line ++ "\n" =
        "rule a [\"\"\"d\"\"\" e & f] 0 features, 0 coreferences, 1 suffix affixes" ++ "\n" := ends.symm.trans shown
    exact String.append_left_inj _ |>.mp same
  · have here := List.all_eq_true.mp (List.all_eq_true.mp plain event member) t inside
    exact Term.doc_feeds_eq_zero_iff.mp (by simpa using here)

/-- The docstring of a supertype reaches over two lines, and so does the line for the definition. -/
theorem summary_of_two_lines :
    let bytes := "a := \"\"\"b\nc\"\"\" d.".toUTF8.data.toList
    let shown := "type a [\"\"\"b\nc\"\"\" d] 0 features, 0 coreferences\n"
    (∃ event ∈ ((Source.ofBytes bytes none).read .plain).events,
      event.summary = shown ∧ '\n' ∈ event.summary.toList.dropLast) ∧
    (CommandLine.run (fun _ => .opened bytes none) ["-s", "e"]).output =
      shown ++ "e: 1 types, 0 addenda, 0 inflectional rules, 0 letter sets, 0 comments\n" := by
  intro bytes shown
  have events : ((Source.ofBytes bytes none).read .plain).events.map Event.summary = [shown] := by decide +kernel
  obtain ⟨event, rest, shape, summary, -⟩ := List.map_eq_cons_iff.mp events
  refine ⟨⟨event, shape ▸ List.mem_cons_self .., summary, ?_⟩, by decide +kernel⟩
  rw [summary]
  decide

end TypeDescription
