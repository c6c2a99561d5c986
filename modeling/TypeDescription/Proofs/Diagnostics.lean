import Mathlib.Data.List.DropRight
import TypeDescription.Proofs.Encoding
import TypeDescription.Proofs.Faults
import TypeDescription.Proofs.TextLines
import TypeDescription.Proofs.WrittenLists
import TypeDescription.Report

/-!
What a diagnostic shows is what was read. The lines that are shown are cut from the text at its line
feeds, those that are read are cut after them and lose a carriage return on the way; line by line they
are the same text. A warning is about the line of a token, and an error is passed on from the scan or
is about the line of a token as well, so the line that is to be shown is always there.
-/

namespace TypeDescription

/-! ## Lines that are shown -/

theorem lines_of_pieces_cons (piece : List Char) {pieces : List (List Char)} (more : pieces ≠ []) :
    linesOfPieces (piece :: pieces) = withoutReturn piece :: linesOfPieces pieces := by
  cases pieces with
  | nil => exact absurd rfl more
  | cons next pieces => rfl

theorem without_feed_append {line : List Char} (plain : '\n' ∉ line) (after : List Char) :
    withoutFeed (line ++ after) = line ++ withoutFeed after := by
  have kept : ∀ c ∈ line, decide (c ≠ '\n') = true := by
    intro c member
    have apart : c ≠ '\n' := fun same => plain (same ▸ member)
    simpa using apart
  unfold withoutFeed
  exact List.takeWhile_append_of_pos kept

theorem without_feed_of_plain {line : List Char} (plain : '\n' ∉ line) : withoutFeed line = line := by
  have whole := without_feed_append plain []
  rwa [List.append_nil, withoutFeed.eq_def [], List.takeWhile_nil, List.append_nil] at whole

/-- The reader drops the carriage return that is not shown. -/
theorem without_feed_drop_return {line : List Char} (plain : '\n' ∉ line) :
    withoutFeed (dropReturn (line ++ ['\n'])) = withoutReturn line := by
  rw [withoutReturn]
  split
  · next returned =>
    obtain ⟨before, rfl⟩ := List.getLast?_eq_some_iff.mp returned
    have plain' : '\n' ∉ before := fun member => plain (List.mem_append_left _ member)
    rw [List.append_assoc, List.singleton_append, drop_return_return_feed, without_feed_append plain',
      List.dropLast_concat]
    exact List.append_nil before
  · next last =>
    rw [drop_return_feed plain last, without_feed_append plain]
    exact List.append_nil line

/-- The lines that are shown of a text are those that are read of it, without their line feeds. -/
theorem shown_lines_eq (text : List Char) :
    shownLines text = (Source.textLines text).map withoutFeed := by
  by_cases feed : '\n' ∈ text
  · obtain ⟨line, below, shape, plain⟩ := List.eq_append_cons_of_mem feed
    have shorter : below.length < text.length := by
      rw [shape, List.length_append, List.length_cons]
      omega
    have later := shown_lines_eq below
    have cut := text_lines_cons below plain (.inl rfl)
    rw [List.append_assoc, List.singleton_append] at cut
    rw [shownLines] at later ⊢
    rw [shape, List.splitOn_append_cons_self_of_not_mem plain, lines_of_pieces_cons _ (List.splitOn_ne_nil _ _),
      later, cut, List.map_cons, without_feed_drop_return plain]
  · rw [shownLines, List.splitOn_eq_singleton feed, linesOfPieces]
    split
    · next empty =>
      subst empty
      rfl
    · next nonempty =>
      have cut := text_lines_cons [] feed (.inr (.inr ⟨rfl, rfl, nonempty⟩))
      rw [List.append_nil, List.append_nil, drop_return_of_unreturned (unreturned_of_plain feed)] at cut
      rw [cut, List.map_cons, without_feed_of_plain feed]
      rfl
termination_by text.length

/-- Only the last carriage return before a line feed is left out. -/
example : shownLines "a\r\n\nb\r\r\nc\r".toList = ["a", "", "b\r", "c\r"].map String.toList := by decide

/-! ## Lines that are read -/

/-- This was read on the line of a source with this number, and nothing was left out of it but the line
feed at the end of the line, if there is one. -/
structure Source.Reads (source : Source) (number : Nat) (content : List Char) : Prop where
  counted : 1 ≤ number
  plain : '\n' ∉ content
  line : ∃ ending, (ending = [] ∨ ending = ['\n']) ∧ source.lines[number - 1]? = some (content ++ ending)

namespace Source

variable {source : Source} {number : Nat}

theorem reads_without_feed (areLines : AreLines source.lines) {line : List Char} (counted : 1 ≤ number)
    (found : source.lines[number - 1]? = some line) : source.Reads number (withoutFeed line) := by
  have inner := areLines.inner line (List.mem_of_getElem? found)
  rcases List.eq_nil_or_concat line with rfl | ⟨content, last, rfl⟩
  · exact ⟨counted, List.not_mem_nil, [], .inl rfl, found⟩
  · rw [List.concat_eq_append] at found inner ⊢
    rw [List.dropLast_concat] at inner
    by_cases feed : last = '\n'
    · subst feed
      have whole : withoutFeed (content ++ ['\n']) = content := by
        rw [without_feed_append inner]
        exact List.append_nil content
      rw [whole]
      exact ⟨counted, inner, ['\n'], .inr rfl, found⟩
    · have plain : '\n' ∉ content ++ [last] := by simpa [Ne.symm feed] using inner
      rw [without_feed_of_plain plain]
      exact ⟨counted, plain, [], .inl rfl, by rwa [List.append_nil]⟩

/-- What is read on a line is read on it alone. -/
theorem Reads.eq_without_feed {content line : List Char} (reads : source.Reads number content)
    (found : source.lines[number - 1]? = some line) : content = withoutFeed line := by
  obtain ⟨ending, terminator, whole⟩ := reads.line
  obtain rfl := Option.some.inj (found.symm.trans whole)
  rw [without_feed_append reads.plain]
  obtain rfl | rfl := terminator <;> exact (List.append_nil content).symm

/-- Every line of a text that is read can be shown. -/
theorem shown_of_number (text path : String) (counted : 1 ≤ number)
    (upTo : number ≤ (textLines text.toList).length) :
    ∃ content, (ofText text).Reads number content ∧
      (Listing.ofText path text.toList).line? number = some content := by
  have inside : number - 1 < (textLines text.toList).length := by omega
  have there := List.getElem?_eq_getElem inside
  refine ⟨_, reads_without_feed (text_lines_are_lines text.toList) counted there, ?_⟩
  rw [Listing.line?, Listing.ofText, shown_lines_eq, List.getElem?_map, there, Option.map_some]

end Source

/-! ## What diagnostics are about -/

namespace Reader

variable {fault : Option Error}

/-- A token that is taken is the only one that may be warned of. -/
theorem warning_of_read {reader : Reader} {t : Token} {step : Step} (taken : reader.read t = .ok step) :
    ∀ w ∈ step.warning, w.line = t.line := by
  intro w warned
  cases taken_of_read taken with
  | item taken =>
    obtain ⟨kind, text, line, lastLine⟩ := t
    cases kind <;> cases taken <;> cases warned
  | comment | complete => cases warned
  | next =>
    obtain ⟨spelling, -, rfl⟩ := Option.map_eq_some_iff.mp warned
    rfl

/-- However many tokens are read, every warning is on the line of one of them. -/
theorem warnings_of_run (reader : Reader) (tokens : List Token) :
    ∀ w ∈ (reader.run fault tokens).warnings, ∃ t ∈ tokens, w.line = t.line := by
  induction tokens generalizing reader with
  | nil => exact fun _ member => nomatch member
  | cons t rest ih =>
    intro w member
    rw [run] at member
    cases answer : reader.read t with
    | error e =>
      rw [answer] at member
      cases member
    | ok step =>
      rw [answer] at member
      rcases List.mem_append.mp member with now | later
      · exact ⟨t, List.mem_cons_self .., warning_of_read answer w (Option.mem_toList.mp now)⟩
      · obtain ⟨u, inside, same⟩ := ih step.reader w later
        exact ⟨u, List.mem_cons_of_mem _ inside, same⟩

/-- What is found while the tokens are scanned is no reason to refuse one of them. -/
theorem refusal_not_of_scan {reader : Reader} {t : Token} {e : Error} (refused : reader.read t = .error e) :
    e.cause.isOfScan = false := by
  obtain ⟨-, grammar | ⟨d, meant⟩⟩ := refusal_of_read refused
  · cases cause : e.cause <;> first | rfl | (rw [cause] at grammar; cases grammar)
  · obtain same | ⟨tag, path, same⟩ := Declaration.cause_of_event meant <;> rw [same] <;> rfl

/-- A fault of the scan is passed on as it is. -/
theorem fault_of_run (reader : Reader) (tokens : List Token) {e : Error}
    (failed : (reader.run fault tokens).error = some e) (scanned : e.cause.isOfScan = true) :
    ∃ f, fault = some f ∧ e.cause = f.cause ∧ e.line = f.line := by
  induction tokens generalizing reader with
  | nil =>
    rw [run] at failed
    cases reader with
    | idle => exact ⟨e, failed, rfl, rfl⟩
    | within identifier line stage =>
      cases fault with
      | none =>
        cases failed
        cases scanned
      | some f =>
        cases failed
        exact ⟨f, rfl, rfl, rfl⟩
  | cons t rest ih =>
    rw [run] at failed
    cases answer : reader.read t with
    | ok step =>
      rw [answer] at failed
      exact ih step.reader failed
    | error e' =>
      rw [answer] at failed
      cases failed
      rw [refusal_not_of_scan answer] at scanned
      cases scanned

end Reader

/-- What is found while a source is scanned is its error, but for the names in it. -/
theorem fault_of_read (options : ReadOptions) {source : Source} {e : Error}
    (failed : (source.read options).error = some e) (scanned : e.cause.isOfScan = true) :
    ∃ f, source.scan.error = some f ∧ e.cause = f.cause ∧ e.line = f.line := by
  rw [read_eq_apply, ReadOptions.error_apply] at failed
  obtain ⟨e', failed', rfl⟩ := Option.map_eq_some_iff.mp failed
  have passed := Reader.idle.fault_of_run source.scan.tokens failed'
  obtain ⟨name, comments⟩ := options
  cases name <;> exact passed scanned

/-- The line in which an unexpected character is shown is the line that was read. -/
theorem unexpected_of_scan {text : String} {shown : String} {column : Nat} {fault : Error}
    (failed : (Source.ofText text).scan.error = some fault)
    (unexpected : fault.cause = .unexpectedCharacter shown column) :
    ∃ n line, fault.line = some n ∧ (Source.ofText text).lines[n - 1]? = some line ∧
      shown = String.ofList (withoutFeed line) := by
  have stays : ∀ u ∈ (none : Option Unclosed), StaysOpen u.enclosure.closer u.text :=
    fun u held => absurd held (Option.not_mem_none u)
  obtain ⟨_, _, -, -, leaves⟩ :=
    scan_lines_tiles none (text_lines_are_lines text.toList) stays (Nat.add_zero (0 + 1))
  have whole : scanLines none 0 none (Source.textLines text.toList) = (Source.ofText text).scan := rfl
  rw [whole, Scan.LeavesOver, failed] at leaves
  rcases leaves with ⟨_, never, -⟩ | ⟨enclosure, -, -, -, -, rfl, -⟩ |
    ⟨before, line, after, place, lines, -, stuck, -⟩
  · cases never
  · cases enclosure <;> cases unexpected
  · obtain ⟨-, rfl, -⟩ := stuck
    cases unexpected
    refine ⟨_, line, rfl, ?_, rfl⟩
    rw [Source.ofText, lines]
    simp

section Text

variable {text : String} {options : ReadOptions} (path : String)

theorem shown_of_warning {w : Warning} (warned : w ∈ ((Source.ofText text).read options).warnings) :
    ∃ content, (Source.ofText text).Reads w.line content ∧
      (Listing.ofText path text.toList).line? w.line = some content := by
  rw [read_warnings] at warned
  obtain ⟨t, inside, same⟩ := Reader.idle.warnings_of_run _ w warned
  obtain ⟨counted, upTo⟩ := (Source.ofText text).line_of_token t inside
  rw [same]
  exact Source.shown_of_number text path counted upTo

theorem shown_of_error {e : Error} (failed : ((Source.ofText text).read options).error = some e) :
    ∃ number content, e.line = some number ∧ (Source.ofText text).Reads number content ∧
      (Listing.ofText path text.toList).line? number = some content ∧
        ∀ line column, e.cause = .unexpectedCharacter line column → line = String.ofList content := by
  obtain ⟨items, rest, -, -, located⟩ := read_error_located options failed
  obtain ⟨number, numbered, blames, -⟩ := located.line
  obtain ⟨content, reads, found⟩ := Source.shown_of_number text path blames.1 (blames.le_length rfl)
  refine ⟨number, content, numbered, reads, found, fun line column unexpected => ?_⟩
  obtain ⟨f, fault, sameCause, sameLine⟩ := fault_of_read options failed (by rw [unexpected]; rfl)
  obtain ⟨n, whole, numbered', there, rfl⟩ := unexpected_of_scan fault (sameCause.symm.trans unexpected)
  obtain rfl : n = number := Option.some.inj (numbered'.symm.trans (sameLine.symm.trans numbered))
  rw [reads.eq_without_feed there]

end Text

/-! ## Files -/

namespace File

/-- The file that holds a text. -/
def ofText (text : String) : File := opened text.toUTF8.data.toList none

theorem listing_of_text (path text : String) :
    (ofText text).listing path = Listing.ofText path text.toList := by
  have valid : text.toUTF8.IsValidUTF8 := text.isValidUTF8
  have bytes : (⟨text.toUTF8.data.toList.toArray⟩ : ByteArray) = text.toUTF8 := rfl
  have decoded : (ofText text).text? = some text := by
    rw [ofText, text?, bytes, String.fromUTF8?, dif_pos valid]
    rfl
  rw [listing, decoded, Option.getD_some]

theorem read_of_text (options : ReadOptions) (path text : String) : (ofText text).read options path =
    .ok ((Source.ofText text).read { options with name := some (options.name.getD path) }) := by
  have source : Source.ofBytes text.toUTF8.data.toList none = Source.ofText text := of_bytes_of_text text none
  rw [← source]
  rfl

end File

/-! ## Texts that are shown -/

/-- A line and its margins. They are white, and what stands between them neither starts nor ends with
white space. -/
structure HasMargins (line indent inner margin : List Char) : Prop where
  shape : line = indent ++ (inner ++ margin)
  white : ∀ c ∈ indent ++ margin, Unicode.isWhiteSpace c = true
  starts : ∀ c ∈ inner.head?, Unicode.isWhiteSpace c = false
  ends : ∀ c ∈ inner.getLast?, Unicode.isWhiteSpace c = false

/-- A line is shown: its number stands before all that it holds, and below it stand marks and a note.
There is at least one mark, and they are below what is between the margins and as wide as that. -/
def ShowsLine (number : Nat) (line : List Char) (mark : Char) (note shown : String) : Prop :=
  ∃ indent inner margin, HasMargins line indent inner margin ∧
    shown = toString number ++ "| " ++ String.ofList line ++ "\n" ++
      String.ofList
        (List.replicate (Unicode.displayWidth (toString number ++ "| ").toList + Unicode.displayWidth indent) ' ' ++
          List.replicate (max 1 (Unicode.displayWidth inner)) mark) ++
      " " ++ note

theorem has_margins_trim (line : List Char) :
    ∃ margin, HasMargins line (line.takeWhile Unicode.isWhiteSpace) (Unicode.trim line) margin := by
  let rest := line.dropWhile Unicode.isWhiteSpace
  have cut : Unicode.trim line ++ rest.rtakeWhile Unicode.isWhiteSpace = rest := List.rdropWhile_append_rtakeWhile ..
  refine ⟨rest.rtakeWhile Unicode.isWhiteSpace, ?_, ?_, ?_, ?_⟩
  · rw [cut, List.takeWhile_append_dropWhile]
  · intro c member
    rcases List.mem_append.mp member with before | behind
    · exact List.mem_takeWhile_imp before
    · exact List.mem_rtakeWhile_imp behind
  · intro c first
    obtain ⟨inner, trimmed⟩ := List.head?_eq_some_iff.mp first
    rw [trimmed, List.cons_append] at cut
    have dark := List.head?_dropWhile_not Unicode.isWhiteSpace line
    rw [show line.dropWhile Unicode.isWhiteSpace = rest from rfl, ← cut] at dark
    exact dark
  · intro c last
    obtain ⟨nonempty, rfl⟩ := List.mem_getLast?_eq_getLast last
    exact eq_false_of_ne_true (List.rdropWhile_last_not Unicode.isWhiteSpace rest nonempty)

namespace Listing

variable {listing : Listing} {number : Nat} {line : List Char}

theorem shows_line_noted (number : Nat) (line : List Char) (mark : Char) (note : String) :
    ShowsLine number line mark note (noted number line mark note) := by
  obtain ⟨margin, margins⟩ := has_margins_trim line
  refine ⟨_, _, margin, margins, ?_⟩
  rw [noted, label, String.ofList_append, String.ofList_toList]
  rfl

/-- Of a line that exists something is shown. -/
theorem underlined_of_line (found : listing.line? number = some line) (mark : Char) (note : String) :
    ShowsLine number line mark note (listing.underlined number mark note) := by
  rw [underlined, found]
  exact shows_line_noted number line mark note

theorem error_text_of_line (listing : Listing) {e : Error} (numbered : e.line = some number) :
    listing.errorText e = match e.cause with
      | .unexpectedCharacter .. => e.text
      | _ => e.text ++ "\n" ++ listing.underlined number '^' "here" := by
  cases cause : e.cause <;> simp only [errorText, cause, numbered]

end Listing

/-- The message about an unexpected character has the line in it, with a caret below the character. -/
theorem Error.text_of_unexpected {e : Error} {line : String} {column : Nat}
    (unexpected : e.cause = .unexpectedCharacter line column) : ∃ before after,
      e.text = before ++
        ("Syntax error:\n  " ++ line ++ "\n  " ++ String.ofList (List.replicate column ' ') ++ "^") ++ after := by
  have placed : ∃ before after, e.text = before ++ e.cause.message ++ after := ⟨_, _, rfl⟩
  have spelled : e.cause.message =
      "Syntax error:\n  " ++ line ++ "\n  " ++ String.ofList (List.replicate column ' ') ++ "^" := by
    rw [unexpected]
    rfl
  rwa [spelled] at placed

/-- Diagnostics show the line that was blamed. Whatever text a file holds, every warning and every
error has the number of a line that was read, the listing of the file finds that line, and what it
shows is the number, what was read on the line without the line feed, and below that the marks. An
error about an unexpected character holds the line itself, and it is the same one. -/
theorem diagnostics_show_lines_read (text : String) (options : ReadOptions) (path : String) :
    let source := Source.ofBytes text.toUTF8.data.toList none
    let file := File.opened text.toUTF8.data.toList none
    let listing := file.listing path
    ∃ o, file.read options path = .ok o ∧
      (∀ w ∈ o.warnings, ∃ content shown, source.Reads w.line content ∧ listing.line? w.line = some content ∧
        ShowsLine w.line content '-' w.text shown ∧ listing.underlined w.line '-' w.text = shown ∧
          listing.warningText w = "Warning at " ++ path ++ ":" ++ toString w.line ++ "\n" ++ shown) ∧
      ∀ e, o.error = some e → ∃ number content shown, e.line = some number ∧ source.Reads number content ∧
        listing.line? number = some content ∧
          ShowsLine number content '^' "here" shown ∧ listing.underlined number '^' "here" = shown ∧
            match e.cause with
            | .unexpectedCharacter line column => line = String.ofList content ∧ listing.errorText e = e.text ∧
              ∃ before after, e.text = before ++
                ("Syntax error:\n  " ++ line ++ "\n  " ++ String.ofList (List.replicate column ' ') ++ "^") ++ after
            | _ => listing.errorText e = e.text ++ "\n" ++ shown := by
  intro source file listing
  have source_eq : source = Source.ofText text := of_bytes_of_text text none
  have listing_eq : listing = Listing.ofText path text.toList := File.listing_of_text path text
  rw [source_eq, listing_eq]
  refine ⟨_, File.read_of_text options path text, fun w warned => ?_, fun e failed => ?_⟩
  · obtain ⟨content, reads, found⟩ := shown_of_warning path warned
    exact ⟨content, _, reads, found, Listing.underlined_of_line found '-' w.text, rfl, rfl⟩
  · obtain ⟨number, content, numbered, reads, found, unexpected⟩ := shown_of_error path failed
    refine ⟨number, content, _, numbered, reads, found, Listing.underlined_of_line found '^' "here", rfl, ?_⟩
    have printed := Listing.error_text_of_line (Listing.ofText path text.toList) numbered
    cases cause : e.cause with
    | unexpectedCharacter line column =>
      rw [cause] at printed
      exact ⟨unexpected line column cause, printed, Error.text_of_unexpected cause⟩
    | _ =>
      rw [cause] at printed
      exact printed

end TypeDescription
