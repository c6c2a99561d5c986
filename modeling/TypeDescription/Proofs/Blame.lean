import TypeDescription.Proofs.Interruptions
import TypeDescription.Proofs.Itemizing

/-!
What an error is blamed on. A scan goes down the lines of a source and never back, so the lines of
its tokens rise, and its fault, if there is one, is not above them. The reader blames a token that it
has not read as part of an item, or passes on the fault of the scan; it adds the identifier of the
definition that it is inside of, and it is inside of one if and only if what follows the items that
it has read begins with an identifier.
-/

namespace TypeDescription

/-! ## Lines that rise -/

/-- The lines do not go back, from a first line to a last one. -/
def Rises : Nat → List Nat → Nat → Prop
  | low, [], high => low ≤ high
  | low, n :: rest, high => low ≤ n ∧ Rises n rest high

namespace Rises

variable {low middle high : Nat} {first second : List Nat}

theorem of_le {lower : Nat} (below : lower ≤ low) (rises : Rises low first high) :
    Rises lower first high := by
  cases first with
  | nil => exact Nat.le_trans below rises
  | cons n rest => exact ⟨Nat.le_trans below rises.1, rises.2⟩

theorem up_to {higher : Nat} (above : high ≤ higher) (rises : Rises low first high) :
    Rises low first higher := by
  induction first generalizing low with
  | nil => exact Nat.le_trans rises above
  | cons n rest ih => exact ⟨rises.1, ih rises.2⟩

theorem append (before : Rises low first middle) (after : Rises middle second high) :
    Rises low (first ++ second) high := by
  induction first generalizing low with
  | nil => exact after.of_le before
  | cons n rest ih => exact ⟨before.1, ih before.2⟩

theorem le_of_mem (rises : Rises low first high) : ∀ n ∈ first, low ≤ n := by
  induction first generalizing low with
  | nil => exact fun n member => nomatch member
  | cons m rest ih =>
    intro n member
    rcases List.mem_cons.mp member with rfl | later
    · exact rises.1
    · exact Nat.le_trans rises.1 (ih rises.2 n later)

theorem of_append (rises : Rises low (first ++ second) high) : Rises low second high := by
  induction first generalizing low with
  | nil => exact rises
  | cons n rest ih => exact (ih rises.2).of_le rises.1

theorem of_forall_eq {n : Nat} (same : ∀ m ∈ first, m = n) : Rises n first n := by
  induction first with
  | nil => exact Nat.le_refl n
  | cons m rest ih =>
    obtain ⟨rfl, later⟩ := List.forall_mem_cons.mp same
    exact ⟨Nat.le_refl _, ih later⟩

end Rises

/-! ## The lines of a scan -/

/-- The line on which the next token starts, at the earliest. -/
def nextLine (read : Nat) : Option Unclosed → Nat
  | some unclosed => unclosed.line
  | none => read + 1

private theorem next_line_le {read : Nat} {unclosed : Option Unclosed}
    (opened : ∀ u ∈ unclosed, u.line ≤ read) : nextLine read unclosed ≤ read + 1 := by
  cases unclosed with
  | none => exact Nat.le_refl _
  | some unclosed => exact Nat.le_succ_of_le (opened unclosed rfl)

/-- The lines of some tokens. -/
def linesOf (tokens : List Token) : List Nat := tokens.map Token.line

/-- The lines on which a scan finds its tokens, and then its fault. -/
def Scan.places (scan : Scan) : List Nat := linesOf scan.tokens ++ (scan.error.bind (·.line)).toList

/-- How the lines of a line's tokens rise, and where it leaves off. -/
private def LineScan.RisesFrom (low number : Nat) (scan : LineScan) : Prop :=
  match scan.ending with
  | .ok left => Rises low (linesOf scan.tokens) (nextLine number left) ∧ ∀ u ∈ left, u.line ≤ number
  | .error fault => Rises low (linesOf scan.tokens) number ∧
      ∃ text column, fault = .onLine (.unexpectedCharacter text column) number

private theorem walk_fault {number : Nat} {line rest : List Char} {covered : Nat} {fault : Error}
    (failed : (walk number line rest covered).ending = .error fault) :
    ∃ text column, fault = .onLine (.unexpectedCharacter text column) number := by
  fun_induction walk number line rest covered with
  | case1 => cases failed
  | case2 c rest covered ih | case3 c rest white ih => exact ih failed
  | case4 c rest white enclosure body opened unclosed text after closed ih => exact ih failed
  | case5 => cases failed
  | case6 c rest white opened kind text after found ih => exact ih failed
  | case7 =>
    cases failed
    exact ⟨_, _, rfl⟩

private theorem walk_rises (number : Nat) (line rest : List Char) (covered : Nat) :
    (walk number line rest covered).RisesFrom number number := by
  obtain ⟨tokens, left⟩ := walk_token_lines number line rest covered
  have rises : Rises number (linesOf (walk number line rest covered).tokens) number := by
    refine Rises.of_forall_eq fun n member => ?_
    obtain ⟨t, inside, rfl⟩ := List.mem_map.mp member
    exact (tokens t inside).1
  rw [LineScan.RisesFrom]
  cases ending : (walk number line rest covered).ending with
  | ok left' =>
    cases left' with
    | none => exact ⟨rises.up_to (Nat.le_succ number), fun _ held => nomatch held⟩
    | some unclosed =>
      have here : unclosed.line = number := left unclosed ending
      refine ⟨rises.up_to (Nat.le_of_eq here.symm), fun u held => ?_⟩
      cases held
      exact Nat.le_of_eq here
  | error fault => exact ⟨rises, walk_fault ending⟩

/-- A line starts with what closes the enclosure that is unclosed, if it does close. -/
private theorem scan_line_rises {read : Nat} {unclosed : Option Unclosed} (line : List Char)
    (opened : ∀ u ∈ unclosed, u.line ≤ read) :
    (scanLine (read + 1) line unclosed).RisesFrom (nextLine read unclosed) (read + 1) := by
  cases unclosed with
  | none => exact walk_rises (read + 1) line line 0
  | some unclosed =>
    have upTo : unclosed.line ≤ read + 1 := Nat.le_succ_of_le (opened unclosed rfl)
    rw [scanLine]
    split
    · next text after closed =>
      have later := walk_rises (read + 1) line line (line.length - after.length)
      rw [LineScan.RisesFrom] at later ⊢
      rw [LineScan.after]
      cases ending : (walk (read + 1) line line (line.length - after.length)).ending with
      | ok left =>
        rw [ending] at later
        exact ⟨⟨Nat.le_refl _, later.1.of_le upTo⟩, later.2⟩
      | error fault =>
        rw [ending] at later
        exact ⟨⟨Nat.le_refl _, later.1.of_le upTo⟩, later.2⟩
    · refine ⟨Nat.le_refl _, fun u held => ?_⟩
      cases held
      exact upTo

/-- A scan never goes back. -/
theorem scan_lines_rise (failure : Option String) {read : Nat} {unclosed : Option Unclosed}
    (lines : List (List Char)) (opened : ∀ u ∈ unclosed, u.line ≤ read) :
    Rises (nextLine read unclosed) (scanLines failure read unclosed lines).places
      (read + lines.length + 1) := by
  induction lines generalizing read unclosed with
  | nil =>
    cases failure with
    | some reason => exact ⟨next_line_le opened, Nat.le_refl _⟩
    | none =>
      cases unclosed with
      | none => exact Nat.le_refl _
      | some unclosed => exact ⟨Nat.le_refl _, next_line_le opened⟩
  | cons line lines ih =>
    have rises := scan_line_rises line opened
    have last : read + (line :: lines).length + 1 = read + 1 + lines.length + 1 := by
      rw [List.length_cons]
      omega
    rw [LineScan.RisesFrom] at rises
    rw [scanLines, last]
    cases ending : (scanLine (read + 1) line unclosed).ending with
    | ok left =>
      rw [ending] at rises
      simp only [Scan.after, Scan.places, linesOf, List.map_append, List.append_assoc]
      exact rises.1.append (ih rises.2)
    | error fault =>
      rw [ending] at rises
      obtain ⟨before, text, column, rfl⟩ := rises
      exact before.append ⟨Nat.le_refl _, by rw [Rises]; omega⟩

/-- Does a cause say that the source cannot be read? -/
def Cause.isUnreadable : Cause → Bool
  | .unreadable _ => true
  | _ => false

/-- Is this found while the tokens are scanned? -/
def Cause.isOfScan : Cause → Bool
  | .unexpectedCharacter .. | .unterminatedDocstring | .unterminatedComment => true
  | _ => false

/-- A fault of a scan is on one of the lines, or the source cannot be read any further. -/
theorem scan_lines_fault {failure : Option String} {read : Nat} {unclosed : Option Unclosed}
    {lines : List (List Char)} {fault : Error} (opened : ∀ u ∈ unclosed, u.line ≤ read)
    (failed : (scanLines failure read unclosed lines).error = some fault) :
    (∃ reason, failure = some reason ∧ fault = .onLine (.unreadable reason) (read + lines.length + 1)) ∨
    ∃ cause line, cause.isOfScan = true ∧ line ≤ read + lines.length ∧ fault = .onLine cause line := by
  induction lines generalizing read unclosed with
  | nil =>
    cases failure with
    | some reason =>
      cases failed
      exact .inl ⟨reason, rfl, rfl⟩
    | none =>
      cases unclosed with
      | none => cases failed
      | some unclosed =>
        cases failed
        refine .inr ⟨_, _, ?_, opened unclosed rfl, rfl⟩
        obtain ⟨enclosure, line, text⟩ := unclosed
        cases enclosure <;> rfl
  | cons line lines ih =>
    have rises := scan_line_rises line opened
    have last : read + (line :: lines).length = read + 1 + lines.length := by
      rw [List.length_cons]
      omega
    rw [LineScan.RisesFrom] at rises
    rw [scanLines] at failed
    rw [last]
    cases ending : (scanLine (read + 1) line unclosed).ending with
    | ok left =>
      rw [ending] at rises failed
      exact ih rises.2 failed
    | error fault' =>
      rw [ending] at rises failed
      cases failed
      obtain ⟨-, text, column, rfl⟩ := rises
      exact .inr ⟨_, _, rfl, by omega, rfl⟩

/-! ## What the reader blames -/

/-- The first token of a definition that the tokens begin with. -/
def opened? (tokens : List Token) : Option Token := tokens.head?.filter fun t => t.kind = .identifier

/-- An error inside the definition that a token opens. -/
def Error.inside (e : Error) : Option Token → Error
  | some t => e.withIdentifier t.text
  | none => e

/-- What an error comes from: the fault with which the tokens end, or a fault with one of them, which
is on a line of theirs. -/
inductive Error.BlamedOn (fault : Option Error) (lines : List Nat) (opener : Option Token) : Error → Prop where
  | fault {f : Error} (same : fault = some f) : BlamedOn fault lines opener (f.inside opener)
  | token {cause : Cause} {line : Nat} (readable : cause.isUnreadable = false) (member : line ∈ lines) :
    BlamedOn fault lines opener ((Error.onLine cause line).inside opener)

theorem Error.BlamedOn.mono {fault : Option Error} {fewer lines : List Nat} {opener : Option Token}
    {e : Error} (blamed : e.BlamedOn fault fewer opener) (more : fewer ⊆ lines) :
    e.BlamedOn fault lines opener := by
  cases blamed with
  | fault same => exact .fault same
  | token readable member => exact .token readable (more member)

private theorem readable_of_grammar {cause : Cause} (grammar : cause.isOfGrammar = true) :
    cause.isUnreadable = false := by
  cases cause <;> first | rfl | cases grammar

private theorem readable_of_event {d : Declaration} {cause : Cause} (refused : d.event = .error cause) :
    cause.isUnreadable = false := by
  obtain rfl | ⟨tag, path, rfl⟩ := Declaration.cause_of_event refused <;> rfl

/-- A token is refused on its own line, for a rule of the grammar or because the definition that it
completes means nothing. -/
theorem Reader.refusal_of_read {reader : Reader} {t : Token} {e : Error} (refused : reader.read t = .error e) :
    e.line = some t.line ∧
      (e.cause.isOfGrammar = true ∨ ∃ d : Declaration, d.event = .error e.cause) := by
  cases reader with
  | idle =>
    obtain ⟨kind, text, line, lastLine⟩ := t
    cases kind <;> cases refused <;> exact ⟨rfl, .inl rfl⟩
  | within identifier line stage =>
    have answered := stage.read_answered t
    rw [read] at refused
    split at refused
    · cases refused
    · rw [readWithin] at refused
      cases answer : stage.read t with
      | error cause =>
        rw [answer] at answered refused
        cases refused
        exact ⟨rfl, .inl answered⟩
      | ok progress =>
        rw [answer] at refused
        cases progress with
        | next later old => cases refused
        | complete head body =>
          simp only [bind, Except.bind] at refused
          cases meant : Declaration.event { identifier, head, body } with
          | ok event =>
            rw [meant] at refused
            cases refused
          | error cause =>
            rw [meant] at refused
            cases refused
            exact ⟨rfl, .inr ⟨_, meant⟩⟩

/-- Inside a definition that is never completed the fault of the tokens is passed on, or it is the
token that does not fit that is blamed, or the last one. -/
theorem Reader.error_of_incomplete (fault : Option Error) (opener : Token) (line : Nat) {stage : Stage}
    {tokens : List Token} (unfinished : stage.complete? tokens = none) :
    ∃ e, (run fault (.within opener.text line stage) tokens).error = some e ∧
      e.BlamedOn fault (line :: linesOf tokens) (some opener) := by
  fun_induction Stage.complete? stage tokens generalizing line with
  | case1 stage =>
    cases fault with
    | some f => exact ⟨_, rfl, .fault rfl⟩
    | none => exact ⟨_, rfl, .token rfl (List.mem_cons_self ..)⟩
  | case2 stage t rest comment ih =>
    obtain ⟨e, failed, blamed⟩ := ih line (Option.map_eq_none_iff.mp unfinished)
    rw [run, read, if_pos comment]
    exact ⟨e, failed, blamed.mono (List.cons_subset_cons line (List.subset_cons_self ..))⟩
  | case3 stage t rest plain next old taken ih =>
    obtain ⟨e, failed, blamed⟩ := ih t.line (Option.map_eq_none_iff.mp unfinished)
    rw [run, read, if_neg plain, readWithin, taken]
    exact ⟨e, failed, blamed.mono (List.subset_cons_self ..)⟩
  | case4 => cases unfinished
  | case5 stage t rest plain cause refused =>
    have grammar := stage.read_answered t
    rw [refused] at grammar
    rw [run, read, if_neg plain, readWithin, refused]
    exact ⟨_, rfl, .token (readable_of_grammar grammar) (List.mem_cons_of_mem _ (List.mem_cons_self ..))⟩

/-- A token that no item begins with is blamed itself. -/
theorem Reader.read_item_unexpected {t : Token} (plain : t.isComment = false)
    (noLetters : t.kind ≠ .letterSet) (noName : t.kind ≠ .identifier) :
    readItem t = .error (.onLine (.unexpectedToken t.written) t.line) := by
  obtain ⟨kind, text, line, lastLine⟩ := t
  cases kind <;> first | rfl | contradiction

/-- A complete definition that means nothing is blamed on its dot. -/
private theorem blamed_on_dot {fault : Option Error} {tokens rest : List Token} {item : Item} {cause : Cause}
    (standard : ∀ t ∈ tokens, t.Standard) (found : firstItem? tokens = some (item, rest))
    (meant : item.event = .error cause) :
    (item.error cause).BlamedOn fault (linesOf tokens) (opened? tokens) := by
  obtain ⟨-, shape⟩ := first_item_sound standard found
  obtain ⟨t, comment, rfl, rfl⟩ | ⟨t, kind, rfl, rfl⟩ | ⟨t, later, c, kind, rfl, completed, rfl, rfl⟩ :=
    first_item_cases found
  · rw [Item.event] at meant
    split at meant <;> cases meant
  · cases meant
  · have opener : opened? (t :: later) = some t := by simp [opened?, kind]
    have dot : c.dot ∈ t :: later := by rw [shape, Item.tokens]; simp
    rw [opener]
    exact .token (readable_of_event meant) (List.mem_map_of_mem dot)

/-- Tokens that begin with no item are blamed themselves, unless their fault is passed on. -/
private theorem blamed_without_item {fault : Option Error} {tokens : List Token} {e : Error}
    (absent : firstItem? tokens = none) (failed : (Reader.run fault .idle tokens).error = some e) :
    e.BlamedOn fault (linesOf tokens) (opened? tokens) := by
  cases tokens with
  | nil =>
    cases fault with
    | none => cases failed
    | some f =>
      cases failed
      exact .fault rfl
  | cons t later =>
    rw [firstItem?] at absent
    split at absent
    · cases absent
    · split at absent
      · cases absent
      · next plain noLetters =>
        rw [Reader.run, Reader.read] at failed
        split at absent
        · next kind =>
          have opener : opened? (t :: later) = some t := by simp [opened?, kind]
          obtain ⟨e', failed', blamed⟩ := Reader.error_of_incomplete fault t t.line
            (Option.map_eq_none_iff.mp absent)
          rw [Reader.readItem, kind] at failed
          cases failed'.symm.trans failed
          rw [opener]
          exact blamed
        · next kind =>
          have opener : opened? (t :: later) = none := by simp [opened?, kind]
          rw [Reader.read_item_unexpected (by simpa using plain) noLetters kind] at failed
          cases failed
          rw [opener]
          exact .token rfl (List.mem_cons_self ..)

/-- What is left over after the items is blamed itself, unless the fault of the tokens is passed on.
The error is inside the definition that it begins with, if it begins with one. -/
theorem Itemizes.error_of_rest {tokens rest : List Token} {items : List Item} {fault : Option Error}
    {e : Error} (itemizes : Itemizes tokens items rest) (standard : ∀ t ∈ tokens, t.Standard)
    (failed : (Reader.run fault .idle rest).error = some e) :
    e.BlamedOn fault (linesOf rest) (opened? rest) := by
  have inside : ∀ t ∈ rest, t.Standard := fun t member =>
    standard t (itemizes.written ▸ List.mem_append_right _ member)
  cases found : firstItem? rest with
  | none => exact blamed_without_item found failed
  | some first =>
    obtain ⟨item, later⟩ := first
    obtain ⟨grammatical, shape⟩ := first_item_sound inside found
    cases meant : item.event with
    | ok event =>
      have meaningful := item.meaningful_iff_event.mpr ⟨event, meant⟩
      exact absurd shape (itemizes.stuck item later grammatical meaningful)
    | error cause =>
      rw [run_first_item_error fault found meant] at failed
      cases failed
      exact blamed_on_dot inside found meant

/-! ## Where errors are -/

/-- A line that a cause can be blamed on: one of the lines of the source, or, if the source cannot
be read, the one after those that can. -/
def Source.Blames (source : Source) (cause : Cause) (line : Nat) : Prop :=
  1 ≤ line ∧ match cause with
    | .unreadable reason => source.failure = some reason ∧ line = source.lines.length + 1
    | _ => line ≤ source.lines.length

theorem Source.blames_of_readable {source : Source} {cause : Cause} {line : Nat}
    (readable : cause.isUnreadable = false) (first : 1 ≤ line) (last : line ≤ source.lines.length) :
    source.Blames cause line := by
  refine ⟨first, ?_⟩
  cases cause <;> first | exact last | cases readable

/-- Where reading does not fail, no cause is blamed on a line that cannot be read. -/
theorem Source.Blames.le_length {source : Source} {cause : Cause} {line : Nat}
    (blames : source.Blames cause line) (whole : source.failure = none) : line ≤ source.lines.length := by
  obtain ⟨-, last⟩ := blames
  cases cause with
  | unreadable reason => cases whole.symm.trans last.1
  | _ => exact last

/-- An error is located in full, given the tokens that are left over after the items that have been
read. -/
structure Error.Located (e : Error) (options : ReadOptions) (source : Source) (rest : List Token) :
    Prop where
  line : ∃ n, e.line = some n ∧ source.Blames e.cause n ∧ ∀ t ∈ opened? rest, t.line ≤ n
  source : e.source = options.name
  identifier : e.identifier = (opened? rest).map (·.text)

/-- An error that is read is the error of everything that is read, with the name of the source. -/
private theorem all_error_of_read {options : ReadOptions} {source : Source} {e : Error}
    (failed : (source.read options).error = some e) :
    ∃ e', source.readAll.error = some e' ∧
      e = match options.name with
        | some name => e'.withSource name
        | none => e' := by
  rw [read_error] at failed
  cases name : options.name with
  | none =>
    rw [name] at failed
    exact ⟨e, failed, rfl⟩
  | some name =>
    rw [name] at failed
    obtain ⟨e', found, rfl⟩ := Option.map_eq_some_iff.mp failed
    exact ⟨e', found, rfl⟩

/-- Where lines rise, none is above that of the definition with which the tokens begin. -/
private theorem Rises.opened_le {low high : Nat} {tokens : List Token} {more : List Nat}
    (rises : Rises low (linesOf tokens ++ more) high) :
    ∀ t ∈ opened? tokens, ∀ n ∈ linesOf tokens ++ more, t.line ≤ n := by
  intro t opener n member
  cases tokens with
  | nil => cases opener
  | cons first later =>
    obtain ⟨same, -⟩ := Option.filter_eq_some_iff.mp opener
    cases same
    rcases List.mem_cons.mp member with rfl | below
    · exact Nat.le_refl _
    · exact rises.2.le_of_mem n below

theorem none_unclosed (read : Nat) : ∀ u ∈ (none : Option Unclosed), u.line ≤ read :=
  fun _ held => nomatch held

private theorem fault_of_scan {source : Source} {fault : Error} (failed : source.scan.error = some fault) :
    ∃ cause line, fault = .onLine cause line ∧ (1 ≤ line → source.Blames cause line) := by
  obtain ⟨reason, failure, rfl⟩ | ⟨cause, line, scanned, last, rfl⟩ :=
    scan_lines_fault (none_unclosed 0) failed
  · exact ⟨_, _, rfl, fun first => ⟨first, failure, by rw [Nat.zero_add]⟩⟩
  · have readable : cause.isUnreadable = false := by cases cause <;> first | rfl | cases scanned
    exact ⟨cause, line, rfl, fun first => Source.blames_of_readable readable first (by omega)⟩

/-- Every token starts on a line of its source. -/
theorem Source.line_of_token (source : Source) :
    ∀ t ∈ source.scan.tokens, 1 ≤ t.line ∧ t.line ≤ source.lines.length := by
  intro t member
  have rises := scan_lines_rise source.failure source.lines (none_unclosed 0)
  obtain ⟨-, upTo, started⟩ := scan_lines_token_lines source.failure 0 none source.lines t member
  have started := started (none_unclosed 0)
  refine ⟨rises.le_of_mem t.line (List.mem_append_left _ (List.mem_map_of_mem member)), ?_⟩
  omega

/-- What is blamed on a token that is left over, or passed on from the scan, has a place. -/
private theorem place_of_blamed {source : Source} {before rest : List Token} {e : Error}
    (scanned : before ++ rest = source.scan.tokens)
    (blamed : e.BlamedOn source.scan.error (linesOf rest) (opened? rest)) :
    ∃ cause n, source.Blames cause n ∧ (∀ t ∈ opened? rest, t.line ≤ n) ∧
      e = (Error.onLine cause n).inside (opened? rest) := by
  have rises := scan_lines_rise source.failure source.lines (none_unclosed 0)
  rw [← Source.scan, Scan.places, ← scanned, linesOf, List.map_append, List.append_assoc] at rises
  have left := rises.of_append
  cases blamed with
  | @fault f same =>
    obtain ⟨cause, line, rfl, blames⟩ := fault_of_scan same
    have place : line ∈ linesOf rest ++ (source.scan.error.bind (·.line)).toList := by
      rw [same]
      exact List.mem_append_right _ (List.mem_singleton_self _)
    exact ⟨cause, line, blames (left.le_of_mem line place),
      fun t opener => left.opened_le t opener line place, rfl⟩
  | @token cause line readable member =>
    have place := List.mem_append_left (source.scan.error.bind (·.line)).toList member
    have last : line ≤ source.lines.length := by
      obtain ⟨t, inside, rfl⟩ := List.mem_map.mp member
      exact (source.line_of_token t (scanned ▸ List.mem_append_right before inside)).2
    exact ⟨cause, line, Source.blames_of_readable readable (left.le_of_mem line place) last,
      fun t opener => left.opened_le t opener line place, rfl⟩

/-- The error of a source is in the definition that what is left over begins with, if it begins with
one, and it has a line. -/
theorem Itemizes.place_of_error {source : Source} {items : List Item} {rest : List Token} {e : Error}
    (itemizes : Itemizes source.scan.tokens items rest) (failed : source.readAll.error = some e) :
    ∃ cause n, source.Blames cause n ∧ (∀ t ∈ opened? rest, t.line ≤ n) ∧
      e = (Error.onLine cause n).inside (opened? rest) := by
  have standard := scan_tokens_standard source
  obtain ⟨-, -, same⟩ := itemizes.run source.scan.error standard
  exact place_of_blamed itemizes.written (itemizes.error_of_rest standard (same.symm.trans failed))

/-- Every error is located in full: it has a line, which is one of the source, or the next one if the
source cannot be read; it has the name of the source; and it has the identifier of a definition if and
only if the tokens of that definition begin what is left over after the items that have been read
(there is one way only to take these off, `Itemizes.unique`). -/
theorem read_error_located (options : ReadOptions) {source : Source} {e : Error}
    (failed : (source.read options).error = some e) :
    ∃ items rest, Itemizes source.scan.tokens items rest ∧
      source.readAll.events.map .ok = items.map Item.event ∧ e.Located options source rest := by
  have standard := scan_tokens_standard source
  obtain ⟨items, rest, itemizes⟩ := exists_itemizes standard
  refine ⟨items, rest, itemizes, (itemizes.run source.scan.error standard).1, ?_⟩
  obtain ⟨e', failed', named⟩ := all_error_of_read failed
  obtain ⟨cause, n, blames, opener, rfl⟩ := itemizes.place_of_error failed'
  rw [named]
  cases name : options.name <;> cases opened : opened? rest
  all_goals
    rw [opened] at opener
    exact ⟨⟨n, rfl, blames, opened ▸ opener⟩, name.symm, by rw [opened]; rfl⟩

/-- A docstring is open when the source cannot be read any further. The definition that it stands in
is the one that is named, and not the one before. -/
theorem read_error_located_in_docstring :
    let source : Source := { lines := Source.textLines "a := b.\nc := \"\"\"d\n".toList, failure := some "gone" }
    let options : ReadOptions := { name := some "f", comments := true }
    let e : Error := { cause := .unreadable "gone", line := some 3, source := some "f", identifier := some "c" }
    (source.read options).error = some e ∧
      ∃ items rest, Itemizes source.scan.tokens items rest ∧
        source.readAll.events.map .ok = items.map Item.event ∧ e.Located options source rest := by
  intro source options e
  have failed : (source.read options).error = some e := by decide +kernel
  exact ⟨failed, read_error_located options failed⟩

end TypeDescription
