import TypeDescription.Proofs.Completion
import TypeDescription.Proofs.Concatenation
import TypeDescription.Proofs.Lexemes
import TypeDescription.Proofs.Sharing

/-!
The grammar of sources. A source is a sequence of items; the spelling of a definition is that of
its derivation, and comments may stand between its tokens. The reader takes items off the front of
the tokens in the only way there is, so it accepts exactly the sequences of items that mean
something, and every item is one event.
-/

namespace TypeDescription

open Spelling

/-! ## Items -/

/-- An item of a source, with the tokens that it is written with. -/
inductive Item where
  | comment (t : Token)
  | letterSet (t : Token)
  /-- A definition: its first token, the tokens after it, and its dot. -/
  | definition (d : Declaration) (name : Token) (inner : List Token) (dot : Token)

namespace Item

/-- The tokens of an item. -/
def tokens : Item → List Token
  | comment t => [t]
  | letterSet t => [t]
  | definition _ name inner dot => name :: inner ++ [dot]

/-- The tokens are those of such an item. Comments may stand inside a definition, but not around
it. -/
def Grammatical : Item → Prop
  | comment t => t.isComment = true
  | letterSet t => t.kind = .letterSet
  | definition d name inner dot =>
    name.isComment = false ∧ dot.isComment = false ∧ significant (name :: inner ++ [dot]) = d.spelling

/-- Beyond its grammar a definition needs a type, unless it is an addendum, and every tag of it is
mentioned at two paths. -/
def Meaningful : Item → Prop
  | comment _ => True
  | letterSet _ => True
  | definition d _ _ _ => d.Supported ∧ ∀ tag, Mention.Shared d.body.mentions tag

/-- The event of an item. -/
def event : Item → Except Cause Event
  | comment t =>
    if t.kind = .lineComment then .ok (.lineComment t.text t.line)
    else .ok (.blockComment t.text t.line)
  | letterSet t => .ok (.letterSet t.text t.line)
  | definition d _ _ _ => d.event

/-- The identifier of a definition. -/
def identifier? : Item → Option String
  | comment _ => none
  | letterSet _ => none
  | definition d _ _ _ => some d.identifier

/-- The warnings about the tokens of an item. -/
def warnings (item : Item) : List Warning := item.tokens.filterMap (Token.warning? item.identifier?)

/-- The error of a definition that means nothing is on the line of its dot. -/
def error (cause : Cause) : Item → Error
  | comment t => .onLine cause t.line
  | letterSet t => .onLine cause t.line
  | definition d _ _ dot => (Error.onLine cause dot.line).withIdentifier d.identifier

theorem meaningful_iff_event (item : Item) : item.Meaningful ↔ ∃ e, item.event = .ok e := by
  cases item with
  | comment t =>
    rw [event]
    split <;> simp [Meaningful]
  | letterSet t => simp [Meaningful, event]
  | definition d name inner dot =>
    simp only [Meaningful, event, Declaration.event_eq_ok_iff,
      CoreferenceSet.resolve_eq_ok_iff d.body.mentions_regular]
    constructor
    · rintro ⟨supported, shared⟩
      exact ⟨_, supported, _, ⟨shared, rfl⟩, rfl⟩
    · rintro ⟨e, supported, sets, ⟨shared, -⟩, -⟩
      exact ⟨supported, shared⟩

end Item

/-- The items are a way to read the tokens. -/
structure Derives (items : List Item) (tokens : List Token) : Prop where
  grammatical : ∀ item ∈ items, item.Grammatical
  written : items.flatMap Item.tokens = tokens

/-! ## The first item -/

/-- The item at the front of the tokens, and the tokens after it. -/
def firstItem? : List Token → Option (Item × List Token)
  | [] => none
  | t :: rest =>
    if t.isComment then some (.comment t, rest)
    else if t.kind = .letterSet then some (.letterSet t, rest)
    else if t.kind = .identifier then
      (Stage.operator.complete? rest).map fun c =>
        (.definition { identifier := t.text, head := c.head, body := c.body } t c.inner c.dot, c.rest)
    else none

/-- All that can stand at the front. -/
theorem first_item_cases {tokens rest : List Token} {item : Item}
    (found : firstItem? tokens = some (item, rest)) :
    (∃ t, t.isComment = true ∧ tokens = t :: rest ∧ item = .comment t) ∨
    (∃ t, t.kind = .letterSet ∧ tokens = t :: rest ∧ item = .letterSet t) ∨
    ∃ t later c, t.kind = .identifier ∧ tokens = t :: later ∧
      Stage.operator.complete? later = some c ∧ rest = c.rest ∧
      item = .definition { identifier := t.text, head := c.head, body := c.body } t c.inner c.dot := by
  fun_cases firstItem? tokens with
  | case1 => cases found
  | case2 t later comment =>
    rw [firstItem?, if_pos comment] at found
    cases found
    exact .inl ⟨t, comment, rfl, rfl⟩
  | case3 t later plain kind =>
    rw [firstItem?, if_neg plain, if_pos kind] at found
    cases found
    exact .inr (.inl ⟨t, kind, rfl, rfl⟩)
  | case4 t later plain other kind =>
    rw [firstItem?, if_neg plain, if_neg other, if_pos kind] at found
    obtain ⟨c, completed, same⟩ := Option.map_eq_some_iff.mp found
    cases same
    exact .inr (.inr ⟨t, later, c, kind, rfl, completed, rfl, rfl⟩)
  | case5 t later plain other kind =>
    rw [firstItem?, if_neg plain, if_neg other, if_neg kind] at found
    cases found

/-- An item at the front is grammatical. -/
theorem first_item_sound {tokens rest : List Token} {item : Item}
    (standard : ∀ t ∈ tokens, t.Standard) (found : firstItem? tokens = some (item, rest)) :
    item.Grammatical ∧ tokens = item.tokens ++ rest := by
  obtain ⟨t, comment, rfl, rfl⟩ | ⟨t, kind, rfl, rfl⟩ | ⟨t, later, c, kind, rfl, completed, rfl, rfl⟩ :=
    first_item_cases found
  · exact ⟨comment, rfl⟩
  · exact ⟨kind, rfl⟩
  · obtain ⟨shape, dot, spelled⟩ := Stage.complete_sound
      (fun u member => standard u (List.mem_cons_of_mem _ member)) completed
    have plain : t.isComment = false := by rw [Token.isComment, kind]; rfl
    have plainDot : c.dot.isComment = false := by rw [Token.isComment, dot]; rfl
    refine ⟨⟨plain, plainDot, ?_⟩, by rw [shape]; simp [Item.tokens]⟩
    rw [List.cons_append, significant_cons plain, Declaration.spelling, Token.bare, kind,
      List.cons_append, List.cons_append, ← spelled]
    rfl

/-- A definition is spelled between its name and its dot. -/
theorem spelled_definition {d : Declaration} {name dot : Token} {inner : List Token}
    (plain : name.isComment = false) (plainDot : dot.isComment = false)
    (spelled : significant (name :: inner ++ [dot]) = d.spelling) :
    name.bare = (.identifier, d.identifier) ∧ dot.kind = .dot ∧
      significant inner = d.head.spelling ++ d.body.spelling := by
  rw [List.cons_append, significant_cons plain, significant_append, significant_cons plainDot,
    Declaration.spelling, List.cons_append, List.cons_append] at spelled
  obtain ⟨named, spelled⟩ := List.cons.inj spelled
  obtain ⟨spelled, dotted⟩ := List.append_inj' spelled rfl
  have kind := congrArg Prod.fst (List.singleton_inj.mp dotted)
  exact ⟨named, kind, spelled⟩

/-- A grammatical item at the front is the one that is found there. -/
theorem first_item_complete {item : Item} (grammatical : item.Grammatical) (rest : List Token) :
    firstItem? (item.tokens ++ rest) = some (item, rest) := by
  cases item with
  | comment t =>
    have comment : t.isComment = true := grammatical
    simp [Item.tokens, firstItem?, comment]
  | letterSet t =>
    have kind : t.kind = .letterSet := grammatical
    have plain : t.isComment = false := by rw [Token.isComment, kind]; rfl
    simp [Item.tokens, firstItem?, plain, kind]
  | definition d name inner dot =>
    obtain ⟨plain, plainDot, spelled⟩ := grammatical
    obtain ⟨named, dotKind, inside⟩ := spelled_definition plain plainDot spelled
    have kind : name.kind = .identifier := congrArg Prod.fst named
    have text : name.text = d.identifier := congrArg Prod.snd named
    obtain ⟨stage, taken, completes⟩ := take_declaration d.head d.body
    rw [← inside] at taken
    have completed := Stage.complete_of_takeAll taken plainDot (completes dot dotKind) rest
    simp [Item.tokens, firstItem?, plain, kind, text, completed]

/-- There is one way at most to read tokens as items. -/
theorem derives_unique {items items' : List Item} {tokens : List Token}
    (first : Derives items tokens) (second : Derives items' tokens) : items = items' := by
  induction items generalizing items' tokens with
  | nil =>
    obtain rfl := first.written
    cases items' with
    | nil => rfl
    | cons item' rest' =>
      have empty := second.written
      cases item' <;> cases empty
  | cons item rest ih =>
    obtain rfl := first.written
    have found := first_item_complete (first.grammatical item (List.mem_cons_self ..))
      (rest.flatMap Item.tokens)
    rw [← List.flatMap_cons] at found
    cases items' with
    | nil =>
      have empty := second.written
      rw [← empty] at found
      cases found
    | cons item' rest' =>
      have found' := first_item_complete (second.grammatical item' (List.mem_cons_self ..))
        (rest'.flatMap Item.tokens)
      rw [← List.flatMap_cons, second.written, found] at found'
      obtain ⟨rfl, written⟩ := Prod.mk.inj (Option.some.inj found')
      have firstRest : Derives rest (rest.flatMap Item.tokens) :=
        ⟨fun item member => first.grammatical item (List.mem_cons_of_mem _ member), rfl⟩
      have secondRest : Derives rest' (rest.flatMap Item.tokens) :=
        ⟨fun item member => second.grammatical item (List.mem_cons_of_mem _ member), written.symm⟩
      rw [ih firstRest secondRest]

/-! ## Reading items -/

section Reading

variable {tokens rest : List Token} {item : Item}

/-- Of a definition the tokens after its identifier are warned of. -/
private theorem warnings_of_definition {t : Token} (kind : t.kind = .identifier) (d : Declaration)
    (inner : List Token) (dot : Token) :
    (Item.definition d t inner dot).warnings =
      (inner ++ [dot]).filterMap (Token.warning? (some d.identifier)) := by
  have quiet := Token.warning_of_plain (some d.identifier) (Token.old_spelling_of_kind kind (by decide))
  rw [Item.warnings, Item.tokens, Item.identifier?, List.cons_append, List.filterMap_cons, quiet]

/-- An item that means something is read as its event, and what follows it as if it stood alone. -/
theorem run_first_item (fault : Option Error) {e : Event}
    (found : firstItem? tokens = some (item, rest)) (meant : item.event = .ok e) :
    Reader.run fault .idle tokens =
      { events := e :: (Reader.run fault .idle rest).events
        warnings := item.warnings ++ (Reader.run fault .idle rest).warnings
        error := (Reader.run fault .idle rest).error } := by
  obtain ⟨t, comment, rfl, rfl⟩ | ⟨t, kind, rfl, rfl⟩ | ⟨t, later, c, kind, rfl, completed, rfl, rfl⟩ :=
    first_item_cases found
  · obtain ⟨kind, text, line, lastLine⟩ := t
    cases kind <;> cases comment <;> cases meant <;> rfl
  · cases meant
    obtain ⟨_, text, line, lastLine⟩ := t
    cases kind
    rfl
  · rw [Item.event] at meant
    have read := Reader.run_of_complete fault t.text t.line completed
    rw [meant] at read
    rw [Reader.run, Reader.read, Reader.readItem, kind, warnings_of_definition kind]
    exact read

/-- An item that means nothing ends the reading with its error. -/
theorem run_first_item_error (fault : Option Error) {cause : Cause}
    (found : firstItem? tokens = some (item, rest)) (meant : item.event = .error cause) :
    Reader.run fault .idle tokens =
      { events := [], warnings := item.warnings, error := some (item.error cause) } := by
  obtain ⟨t, comment, rfl, rfl⟩ | ⟨t, kind, rfl, rfl⟩ | ⟨t, later, c, kind, rfl, completed, rfl, rfl⟩ :=
    first_item_cases found
  · rw [Item.event] at meant
    split at meant <;> cases meant
  · cases meant
  · rw [Item.event] at meant
    have read := Reader.run_of_complete fault t.text t.line completed
    rw [meant] at read
    rw [Reader.run, Reader.read, Reader.readItem, kind, warnings_of_definition kind]
    exact read

/-- Tokens that no item is at the front of are an error. -/
theorem run_no_item (fault : Option Error) {t : Token} (absent : firstItem? (t :: rest) = none) :
    (Reader.run fault .idle (t :: rest)).events = [] ∧
      (Reader.run fault .idle (t :: rest)).error ≠ none := by
  rw [firstItem?] at absent
  split at absent
  · cases absent
  · split at absent
    · cases absent
    · next plain other =>
      split at absent
      · next kind =>
        have incomplete := Option.map_eq_none_iff.mp absent
        rw [Reader.run, Reader.read, Reader.readItem, kind]
        exact Reader.run_of_incomplete fault t.text t.line incomplete
      · next kind =>
        obtain ⟨kind', text, line, lastLine⟩ := t
        cases kind' <;> simp_all [Reader.run, Reader.read, Reader.readItem, Token.isComment,
          TokenKind.isComment]

end Reading

/-- Whatever the tokens are, the events are those of items at their front. Nothing is left of tokens
that are read without an error. -/
theorem exists_items (fault : Option Error) {tokens : List Token}
    (standard : ∀ t ∈ tokens, t.Standard) :
    ∃ (items : List Item) (rest : List Token), items.flatMap Item.tokens ++ rest = tokens ∧
      (∀ item ∈ items, item.Grammatical ∧ item.Meaningful) ∧
      (Reader.run fault .idle tokens).events.map .ok = items.map Item.event ∧
      ((Reader.run fault .idle tokens).error = none → rest = []) := by
  induction length : tokens.length using Nat.strongRecOn generalizing tokens with
  | ind n ih =>
    cases found : firstItem? tokens with
    | none =>
      refine ⟨[], tokens, rfl, fun item member => (nomatch member), ?_⟩
      cases tokens with
      | nil => exact ⟨rfl, fun _ => rfl⟩
      | cons t rest =>
        obtain ⟨none, refused⟩ := run_no_item fault found
        exact ⟨by rw [none]; rfl, fun accepted => absurd accepted refused⟩
    | some next =>
      obtain ⟨item, rest⟩ := next
      obtain ⟨grammatical, shape⟩ := first_item_sound standard found
      cases meant : item.event with
      | error cause =>
        have read := run_first_item_error fault found meant
        rw [read]
        exact ⟨[], tokens, rfl, fun item member => (nomatch member), rfl, fun accepted => nomatch accepted⟩
      | ok e =>
        have read := run_first_item fault found meant
        have shorter : rest.length < n := by
          have positive : 0 < item.tokens.length := by cases item <;> simp [Item.tokens]
          rw [← length, shape, List.length_append]
          omega
        have standardRest : ∀ t ∈ rest, t.Standard := fun t member =>
          standard t (shape ▸ List.mem_append_right _ member)
        obtain ⟨items, left, written, valid, events, complete⟩ := ih rest.length shorter standardRest rfl
        have meaningful := item.meaningful_iff_event.mpr ⟨e, meant⟩
        rw [read]
        refine ⟨item :: items, left, ?_, List.forall_mem_cons.mpr ⟨⟨grammatical, meaningful⟩, valid⟩,
          ?_, complete⟩
        · rw [List.flatMap_cons, List.append_assoc, written, shape]
        · rw [List.map_cons, List.map_cons, events, meant]

/-- Every event is that of an item. -/
theorem item_of_event {source : Source} {e : Event} (member : e ∈ source.readAll.events) :
    ∃ item : Item, item.tokens ⊆ source.scan.tokens ∧ item.Grammatical ∧ item.Meaningful ∧
      item.event = .ok e := by
  obtain ⟨items, rest, written, valid, events, -⟩ :=
    exists_items source.scan.error (scan_tokens_standard source)
  have inside : Except.ok e ∈ items.map Item.event := by
    rw [← events]
    exact List.mem_map_of_mem member
  obtain ⟨item, itemMember, meant⟩ := List.mem_map.mp inside
  obtain ⟨grammatical, meaningful⟩ := valid item itemMember
  refine ⟨item, fun t tokenMember => ?_, grammatical, meaningful, meant⟩
  rw [← written]
  exact List.mem_append_left _ (List.mem_flatMap_of_mem itemMember tokenMember)

/-- What a definition is spelled with are tokens of it. -/
theorem exists_token_of_spelling {d : Declaration} {name dot : Token} {inner : List Token}
    (grammatical : (Item.definition d name inner dot).Grammatical) :
    ∀ piece ∈ d.spelling, ∃ t ∈ (Item.definition d name inner dot).tokens, t.bare = piece := by
  intro piece member
  rw [← grammatical.2.2] at member
  obtain ⟨t, inside, same⟩ := List.mem_map.mp member
  exact ⟨t, (List.mem_filter.mp inside).1, same⟩

/-- Items that mean something are read as their events, and what follows them as if it stood alone. -/
theorem run_of_items (fault : Option Error) {items : List Item}
    (valid : ∀ item ∈ items, item.Grammatical ∧ item.Meaningful) (rest : List Token) :
    ∃ events : List Event, events.map .ok = items.map Item.event ∧
      Reader.run fault .idle (items.flatMap Item.tokens ++ rest) =
        { events := events ++ (Reader.run fault .idle rest).events
          warnings := items.flatMap Item.warnings ++ (Reader.run fault .idle rest).warnings
          error := (Reader.run fault .idle rest).error } := by
  induction items with
  | nil => exact ⟨[], rfl, rfl⟩
  | cons item items ih =>
    obtain ⟨⟨grammatical, meaningful⟩, later⟩ := List.forall_mem_cons.mp valid
    obtain ⟨e, meant⟩ := item.meaningful_iff_event.mp meaningful
    obtain ⟨events, same, read⟩ := ih later
    have found := first_item_complete grammatical (items.flatMap Item.tokens ++ rest)
    refine ⟨e :: events, by rw [List.map_cons, List.map_cons, same, meant], ?_⟩
    rw [List.flatMap_cons, List.append_assoc, run_first_item fault found meant, read,
      List.flatMap_cons, List.cons_append, List.append_assoc]

/-- Items that mean something are read without an error, one event for each. -/
private theorem run_items {items : List Item} {tokens : List Token} (derives : Derives items tokens)
    (meaningful : ∀ item ∈ items, item.Meaningful) :
    (Reader.run none .idle tokens).error = none ∧
      (Reader.run none .idle tokens).events.map .ok = items.map Item.event := by
  obtain ⟨events, same, read⟩ := run_of_items none
    (fun item member => ⟨derives.grammatical item member, meaningful item member⟩) []
  rw [List.append_nil, derives.written] at read
  rw [read]
  exact ⟨rfl, by rw [← same]; simp [Reader.run]⟩

/-- The reader accepts its grammar: a source whose tokens are all scanned is read without an error
if and only if its tokens are items that mean something. There is only one way to read them as
items, and the events are those of the items, in order. -/
theorem read_accepts_iff (name : Option String) {source : Source}
    (scanned : source.scan.error = none) :
    ((source.read { name, comments := true }).error = none ↔
      ∃ items, Derives items source.scan.tokens ∧ ∀ item ∈ items, item.Meaningful) ∧
    (∀ items items', Derives items source.scan.tokens → Derives items' source.scan.tokens →
      items = items') ∧
    ∀ items, Derives items source.scan.tokens → (∀ item ∈ items, item.Meaningful) →
      (source.read { name, comments := true }).events.map .ok = items.map Item.event := by
  have error : (source.read { name, comments := true }).error = none ↔
      (Reader.run none .idle source.scan.tokens).error = none := by
    have all : Reader.run none .idle source.scan.tokens = source.readAll := by
      rw [Source.readAll, scanned]
    rw [all]
    cases name <;> simp [Source.read, Outcome.withSource]
  have events : (source.read { name, comments := true }).events =
      (Reader.run none .idle source.scan.tokens).events := by
    rw [← scanned, ← Source.readAll]
    cases name <;> rfl
  refine ⟨⟨fun accepted => ?_, ?_⟩, fun items items' => derives_unique, fun items derives meaningful => ?_⟩
  · obtain ⟨items, rest, written, valid, -, complete⟩ :=
      exists_items none (scan_tokens_standard source)
    obtain rfl := complete (error.mp accepted)
    rw [List.append_nil] at written
    exact ⟨items, ⟨fun item member => (valid item member).1, written⟩,
      fun item member => (valid item member).2⟩
  · rintro ⟨items, derives, meaningful⟩
    exact error.mpr (run_items derives meaningful).1
  · rw [events]
    exact (run_items derives meaningful).2

/-- A definition with a comment inside, whose first two dots are not its end, after a letter set. With
a quoted symbol for its name the definition is refused. -/
theorem read_accepts_letter_set_and_definition :
    (Source.ofText "%(a b)\nc :< d & ; e\n[ X.Y < #1 . #1 > ].").scan.error = none ∧
      (∃ items,
        Derives items (Source.ofText "%(a b)\nc :< d & ; e\n[ X.Y < #1 . #1 > ].").scan.tokens ∧
        ∀ item ∈ items, item.Meaningful) ∧
      (Source.ofText "'c := d.").scan.error = none ∧
      ¬ ∃ items, Derives items (Source.ofText "'c := d.").scan.tokens ∧
        ∀ item ∈ items, item.Meaningful := by
  have scanned : (Source.ofText "%(a b)\nc :< d & ; e\n[ X.Y < #1 . #1 > ].").scan.error = none := by
    decide +kernel
  have scanned' : (Source.ofText "'c := d.").scan.error = none := by decide +kernel
  refine ⟨scanned, ?_, scanned', fun items => ?_⟩
  · exact (read_accepts_iff none scanned).1.mp (by decide +kernel)
  · have accepted := (read_accepts_iff none scanned').1.mpr items
    exact absurd accepted (by decide +kernel)

end TypeDescription
