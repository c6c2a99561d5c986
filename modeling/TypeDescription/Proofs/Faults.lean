import TypeDescription.Proofs.LeftmostMatches
import TypeDescription.Proofs.Spans
import TypeDescription.Token.Stream

/-!
Where a scan goes wrong. The first character after the last token that is no white space decides: if
there is one, either an enclosure opens there that is never closed, or no entry of the table matches
there. The first is blamed on the line of the opening delimiter, the second on the character itself,
which is shown in its line.
-/

namespace TypeDescription

open Lexeme

/-! ## Characters -/

/-- The characters with which a token may fail to start. Every other character that is no white
space starts one. -/
def faultChars : List Char := ['!', '"', '#', '$', '\'', '(', ')', ':', '=', '^']

theorem mem_fault_chars {c : Char} {s : List Char} (dark : Unicode.isWhiteSpace c = false)
    (nothing : first? (c :: s) = none) : c ∈ faultChars := by
  have silent : ∀ entry ∈ rules, entry.2 (c :: s) = none := fun entry member =>
    Option.map_eq_none_iff.mp (List.findSome?_eq_none_iff.mp nothing entry member)
  have symbolic : isSymbolChar c = false := by
    by_contra here
    have here : isSymbolChar c = true := by simpa using here
    have absent : symbol (c :: s) = none := silent (.identifier, symbol) (by simp [rules])
    rw [symbol, List.takeWhile_cons_of_pos here] at absent
    cases absent
  have apart (kind : TokenKind) (d : Char) (member : (kind, literal [d]) ∈ rules) : c ≠ d := by
    rintro rfl
    exact literal_eq_none_iff.mp (silent _ member) ⟨s, rfl⟩
  have comment : c ≠ ';' := by
    rintro rfl
    have absent := silent (.lineComment, lineComment) (by simp [rules])
    cases absent
  have broken : c ∈ breakChars := by simpa [isSymbolChar, dark] using symbolic
  have literals : ∀ d ∈ ['.', '&', ',', '[', '<', ']', '>', '/'], c ≠ d := by
    simp only [List.forall_mem_cons]
    refine ⟨apart .dot _ ?_, apart .ampersand _ ?_, apart .comma _ ?_, apart .avmOpen _ ?_,
      apart .consListOpen _ ?_, apart .avmClose _ ?_, apart .consListClose _ ?_, apart .slash _ ?_,
      List.forall_mem_nil _⟩ <;> simp [rules]
  simp only [List.forall_mem_cons] at literals
  simp only [breakChars, List.mem_cons] at broken
  simp only [faultChars, List.mem_cons]
  grind

/-! ## Places -/

/-- The tokens tile the text, which starts on this line, and it ends where the last of them ends. -/
def EndsWithLast (line : Nat) (s : List Char) (tokens : List Token) : Prop :=
  (tokens = [] ∧ s = []) ∨ ∃ before span earlier last, tokens = earlier ++ [last] ∧ s = before ++ span ∧
    Tiles line before earlier ∧ span ≠ [] ∧ last.Shows span ∧ last.line = line + before.count '\n'

/-- A tiled text without the white space at its end. -/
theorem Tiles.ends_with_last {line : Nat} {tiled : List Char} {tokens : List Token}
    (tiles : Tiles line tiled tokens) : ∃ passed gap, tiled = passed ++ gap ∧
      (∀ c ∈ gap, Unicode.isWhiteSpace c = true) ∧ EndsWithLast line passed tokens := by
  induction tiles with
  | nil => exact ⟨[], [], rfl, fun _ member => (nomatch member), .inl ⟨rfl, rfl⟩⟩
  | @white line c s tokens space later ih =>
    obtain ⟨passed, gap, rfl, white, ⟨rfl, rfl⟩ | ⟨before, span, earlier, last, rfl, rfl, tiles,
      nonempty, shows, starts⟩⟩ := ih
    · exact ⟨[], c :: gap, rfl, List.forall_mem_cons.mpr ⟨space, white⟩, .inl ⟨rfl, rfl⟩⟩
    · refine ⟨c :: before ++ span, gap, rfl, white, .inr ⟨c :: before, span, earlier, last, rfl, rfl,
        .white space tiles, nonempty, shows, ?_⟩⟩
      rw [starts, Nat.add_assoc, ← List.count_append, List.singleton_append]
  | @token line t span s tokens nonempty shows starts later ih =>
    obtain ⟨passed, gap, rfl, white, ⟨rfl, rfl⟩ | ⟨before, span', earlier, last, rfl, rfl, tiles,
      nonempty', shows', starts'⟩⟩ := ih
    · exact ⟨span, gap, by simp, white, .inr ⟨[], span, [], t, rfl, rfl, .nil, nonempty, shows, starts⟩⟩
    · refine ⟨span ++ before ++ span', gap, by simp, white, .inr ⟨span ++ before, span', t :: earlier,
        last, rfl, rfl, .token nonempty shows starts tiles, nonempty', shows', ?_⟩⟩
      rw [starts', Nat.add_assoc, ← List.count_append]

/-- The characters that stand on the line that a text ends on. -/
def lineSoFar (before : List Char) : List Char := (before.reverse.takeWhile (· ≠ '\n')).reverse

theorem line_so_far_append {before first : List Char}
    (complete : ∀ last ∈ before.getLast?, last = '\n') (plain : '\n' ∉ first) :
    lineSoFar (before ++ first) = first := by
  have kept : ∀ c ∈ first.reverse, decide (c ≠ '\n') = true := by
    intro c member
    have apart : c ≠ '\n' := fun same => plain (same ▸ List.mem_reverse.mp member)
    simpa using apart
  unfold lineSoFar
  rw [List.reverse_append, List.takeWhile_append_of_pos kept]
  rcases List.eq_nil_or_concat before with rfl | ⟨rest, last, rfl⟩
  · simp
  · have feed : last = '\n' := complete last (by simp)
    simp [feed]

theorem first_line_inner (s : List Char) : '\n' ∉ (firstLine s).dropLast := by
  by_cases none : s = []
  · subst none
    exact List.not_mem_nil
  · have member : firstLine s ∈ splitAfter (· == '\n') s := by
      rw [split_after_of_ne_nil none]
      exact List.mem_cons_self ..
    exact fun feed => by simpa using split_after_inner member _ feed

theorem first_line_of_line {place later : List Char} (inner : '\n' ∉ place.dropLast)
    (nonempty : place ≠ []) (ends : later ≠ [] → place.getLast? = some '\n') :
    firstLine (place ++ later) = place := by
  obtain ⟨first, last, rfl⟩ : ∃ first last, place = first ++ [last] :=
    ⟨_, _, (List.dropLast_append_getLast nonempty).symm⟩
  rw [List.dropLast_concat] at inner
  by_cases feed : last = '\n'
  · subst feed
    rw [List.append_assoc, List.singleton_append]
    exact (line_append_feed inner later).1
  · have none : later = [] := by
      by_contra more
      exact feed (by simpa using ends more)
    subst none
    have plain : '\n' ∉ first ++ [last] := by simpa [Ne.symm feed] using inner
    simpa [firstLine, splitAfter] using (line_append plain []).1

/-! ## Faults -/

/-- An enclosure opens here that is never closed, and its line is blamed. -/
def NeverClosed (before place : List Char) (fault : Error) : Prop :=
  ∃ enclosure body, place = Enclosure.opener enclosure ++ body ∧ NeverCloses enclosure.closer body ∧
    fault = .onLine enclosure.unterminated (1 + before.count '\n')

/-- No entry of the table matches here, and the place is blamed: its line is shown without the
terminator, with the number of characters before the place. -/
def Unmatched (lines : List (List Char)) (before place : List Char) (fault : Error) : Prop :=
  TokenRule.tableFirst? (firstLine place) = none ∧
    ∃ line, lines[before.count '\n']? = some line ∧
      fault = .onLine (.unexpectedCharacter (String.ofList (withoutFeed line)) (lineSoFar before).length)
        (1 + before.count '\n')

theorem AreLines.split {before after : List (List Char)} {line : List Char}
    (areLines : AreLines (before ++ line :: after)) :
    (∀ other ∈ before, '\n' ∉ other.dropLast ∧ other.getLast? = some '\n') ∧ '\n' ∉ line.dropLast ∧
      (after ≠ [] → line.getLast? = some '\n') := by
  have shape : (before ++ line :: after).dropLast = before ++ (line :: after).dropLast :=
    List.dropLast_append_of_ne_nil (List.cons_ne_nil _ _)
  refine ⟨fun other member => ⟨areLines.inner other (by simp [member]), areLines.ends other ?_⟩,
    areLines.inner line (by simp), fun more => areLines.ends line ?_⟩
  · rw [shape]
    exact List.mem_append_left _ member
  · rw [shape, List.dropLast_cons_of_ne_nil more]
    exact List.mem_append_right _ (List.mem_cons_self ..)

/-- Complete lines hold as many line feeds as there are lines, and end with one. -/
theorem flatten_complete {lines : List (List Char)}
    (complete : ∀ line ∈ lines, '\n' ∉ line.dropLast ∧ line.getLast? = some '\n') :
    lines.flatten.count '\n' = lines.length ∧ ∀ last ∈ lines.flatten.getLast?, last = '\n' := by
  induction lines with
  | nil => exact ⟨rfl, fun last member => nomatch member⟩
  | cons line lines ih =>
    obtain ⟨⟨inner, ends⟩, complete⟩ := List.forall_mem_cons.mp complete
    obtain ⟨count, closes⟩ := ih complete
    refine ⟨?_, fun last member => ?_⟩
    · rw [List.flatten_cons, List.count_append, count_of_line inner ends, count, List.length_cons,
        Nat.add_comm]
    · rw [List.flatten_cons, List.getLast?_append] at member
      cases later : lines.flatten.getLast? with
      | none =>
        rw [later, ends] at member
        exact (Option.some.inj member).symm
      | some other =>
        rw [later] at member
        exact closes last (later ▸ member)

/-- A scan that is stuck is blamed on its place in the text. -/
theorem Stuck.unmatched {before after : List (List Char)} {whole place : List Char} {fault : Error}
    (areLines : AreLines (before ++ whole :: after)) (stuck : Stuck (before.length + 1) whole place fault) :
    ∃ first, whole = first ++ place ∧
      Unmatched (before ++ whole :: after) (before.flatten ++ first) (place ++ after.flatten) fault := by
  obtain ⟨⟨first, rfl⟩, blamed, c, tail, shape, dark, opened, nothing⟩ := stuck
  obtain ⟨complete, inner, ends⟩ := areLines.split
  obtain ⟨count, closes⟩ := flatten_complete complete
  have nonempty : place ≠ [] := by
    rw [shape]
    exact List.cons_ne_nil _ _
  have inner' : '\n' ∉ place.dropLast := inner_of_suffix _ inner
  have plain : first.count '\n' = 0 := count_of_inner inner nonempty
  have place' : firstLine (place ++ after.flatten) = place := by
    refine first_line_of_line inner' nonempty fun more => ?_
    have last := ends fun none => more (by rw [none]; rfl)
    rwa [List.getLast?_append_of_ne_nil _ nonempty] at last
  refine ⟨first, rfl, ?_, first ++ place, ?_, ?_⟩
  · rw [place', TokenRule.table_first_eq inner', opened, nothing]
    rfl
  · rw [List.count_append, count, plain, Nat.add_zero]
    simp
  · rw [blamed, unexpectedAt, List.count_append, count, plain, Nat.add_zero, Nat.add_comm 1,
      line_so_far_append closes (List.count_eq_zero.mp plain), List.length_append, Nat.add_sub_cancel]

/-- The character that a stuck scan is blamed on stands in the line that is shown, in the column that
is given. -/
theorem Stuck.shown {number : Nat} {whole place : List Char} {fault : Error}
    (inner : '\n' ∉ whole.dropLast) (stuck : Stuck number whole place fault) :
    ∃ c tail column, place = c :: tail ∧ c ∈ faultChars ∧
      fault = .onLine (.unexpectedCharacter (String.ofList (withoutFeed whole)) column) number ∧
        (withoutFeed whole)[column]? = some c := by
  obtain ⟨⟨first, rfl⟩, blamed, c, tail, rfl, dark, -, nothing⟩ := stuck
  have noFeed : c ≠ '\n' := by
    rintro rfl
    cases dark
  have plain : '\n' ∉ first := List.count_eq_zero.mp (count_of_inner inner (List.cons_ne_nil _ _))
  have kept : ∀ d ∈ first, decide (d ≠ '\n') = true := by
    intro d member
    have apart : d ≠ '\n' := fun same => plain (same ▸ member)
    simpa using apart
  refine ⟨c, tail, _, rfl, mem_fault_chars dark nothing, blamed, ?_⟩
  unfold withoutFeed
  rw [List.takeWhile_append_of_pos kept, List.takeWhile_cons_of_pos (by simpa using noFeed),
    List.length_append, Nat.add_sub_cancel]
  simp

/-- The white space before the first other character is given with the text. -/
theorem white_prefix_unique {gap gap' tail tail' : List Char} {c c' : Char}
    (white : ∀ d ∈ gap, Unicode.isWhiteSpace d = true) (dark : Unicode.isWhiteSpace c = false)
    (white' : ∀ d ∈ gap', Unicode.isWhiteSpace d = true) (dark' : Unicode.isWhiteSpace c' = false)
    (same : gap ++ c :: tail = gap' ++ c' :: tail') : gap = gap' ∧ c = c' ∧ tail = tail' := by
  have first := congrArg (List.takeWhile Unicode.isWhiteSpace) same
  rw [List.takeWhile_append_of_pos white, List.takeWhile_append_of_pos white',
    List.takeWhile_cons_of_neg (by simp [dark]), List.takeWhile_cons_of_neg (by simp [dark']),
    List.append_nil, List.append_nil] at first
  subst first
  obtain ⟨rfl, rfl⟩ := List.cons.inj (List.append_cancel_left same)
  exact ⟨rfl, rfl, rfl⟩

/-- A place is blamed in one way only. -/
theorem blame_unique {lines : List (List Char)} {before place : List Char} {fault fault' : Error}
    (blamed : NeverClosed before place fault ∨ Unmatched lines before place fault)
    (blamed' : NeverClosed before place fault' ∨ Unmatched lines before place fault') :
    fault = fault' := by
  have matched {fault fault' : Error} (never : NeverClosed before place fault)
      (unmatched : Unmatched lines before place fault') : False := by
    obtain ⟨enclosure, body, rfl, -, -⟩ := never
    have plain : '\n' ∉ enclosure.opener := by cases enclosure <;> decide
    have found := unmatched.1
    rw [TokenRule.table_first_eq (first_line_inner _), (line_append plain body).1, opening_opener] at found
    cases found
  rcases blamed with never | unmatched <;> rcases blamed' with never' | unmatched'
  · obtain ⟨enclosure, body, shape, -, rfl⟩ := never
    obtain ⟨enclosure', body', shape', -, rfl⟩ := never'
    have opened := opening_opener enclosure body
    rw [← shape, shape', opening_opener] at opened
    cases opened
    rfl
  · exact (matched never unmatched').elim
  · exact (matched never' unmatched).elim
  · obtain ⟨-, line, held, rfl⟩ := unmatched
    obtain ⟨-, line', held', rfl⟩ := unmatched'
    rw [held] at held'
    cases held'
    rfl

/-- A scanner that is asked for tokens answers with all that it finds, and then with its fault; after that it
answers nothing. -/
theorem requests_of_scan (source : Source) (n : Nat) :
    let asked := (TokenStream.ofSource source).requests n
    asked.1 = ((List.range n).map fun request =>
      (source.scan.tokens.map .ok ++ source.scan.error.toList.map .error)[request]?) ∧
    ∀ before fault after, asked.1 = before ++ some (.error fault) :: after →
      (∀ answer ∈ after, answer = none) ∧ asked.2.next = (none, asked.2) := by
  intro asked
  have items : (TokenStream.ofSource source).items =
      source.scan.tokens.map .ok ++ source.scan.error.toList.map .error := by
    rw [TokenStream.items, TokenStream.left_of_source]
  refine ⟨?_, fun before fault after split => ?_⟩
  · rw [← items]
    exact requests_to_answers TokenStream.next_advances n _
  · obtain ⟨nothing, isOver⟩ := TokenStream.last_answers.after split (by simp)
    exact ⟨nothing, TokenStream.last_answers.stays _ isOver⟩

/-- What is left over after an error starts with what is blamed. -/
theorem Scan.LeavesOver.blamed {scan : Scan} {lines : List (List Char)} {tiled rest : List Char}
    {fault : Error} (areLines : AreLines lines) (shape : lines.flatten = tiled ++ rest)
    (leaves : scan.LeavesOver none 0 lines (1 + tiled.count '\n') rest)
    (error : scan.error = some fault) :
    NeverClosed tiled rest fault ∨ Unmatched lines tiled rest fault ∧
      ∃ c tail shown column, rest = c :: tail ∧ c ∈ faultChars ∧
        fault = .onLine (.unexpectedCharacter shown column) scan.linesRead ∧
          shown.toList[column]? = some c := by
  rw [Scan.LeavesOver, error] at leaves
  rcases leaves with ⟨reason, failed, -⟩ | ⟨enclosure, body, -, rest', still, blamed, -⟩ |
    ⟨before, whole, after, place, rfl, rfl, stuck, read⟩
  · cases failed
  · obtain ⟨plain, -, nonempty⟩ := plain_closer enclosure
    exact .inl ⟨enclosure, body, rest', (up_to_closer_eq_none_iff plain nonempty).mp still, blamed⟩
  · rw [Nat.zero_add] at stuck read
    obtain ⟨first, rfl, unmatched⟩ := stuck.unmatched areLines
    have tiled' : tiled = before.flatten ++ first := by
      refine List.append_cancel_right (shape.symm.trans ?_)
      simp
    obtain ⟨c, tail, column, rfl, member, blamed, stands⟩ := stuck.shown areLines.split.2.1
    refine .inr ⟨tiled' ▸ unmatched, c, _, _, column, rfl, member, by rw [blamed, read], ?_⟩
    rwa [String.toList_ofList]

theorem dark_of_fault_char : ∀ c ∈ faultChars, Unicode.isWhiteSpace c = false := by
  have dark : faultChars.all (fun c => !Unicode.isWhiteSpace c) = true := by decide
  simpa using dark

theorem dark_of_opener (enclosure : Enclosure) (body : List Char) :
    ∃ c tail, enclosure.opener ++ body = c :: tail ∧ Unicode.isWhiteSpace c = false := by
  cases enclosure <;> exact ⟨_, _, rfl, by decide⟩

/-- A scan of a text ends with an error exactly where the first character after its last token that is
no white space starts an enclosure that is never closed, which is blamed on the line where it opens,
or starts nothing. Then it is one of ten characters, it is blamed with its line and its column in that
line, where it can be read, and no later line is looked at. Whoever asks for tokens gets those of the
scan, then the error, and after that nothing, however often they ask. -/
theorem lexical_errors_exact (text : String) :
    let source := Source.ofBytes text.toUTF8.data.toList none
    let scan := source.scan
    ∃ passed rest, dropReturns text.toList = passed ++ rest ∧ EndsWithLast 1 passed scan.tokens ∧
      (∀ fault, scan.error = some fault ↔ ∃ gap c tail, rest = gap ++ c :: tail ∧
        (∀ d ∈ gap, Unicode.isWhiteSpace d = true) ∧ Unicode.isWhiteSpace c = false ∧
          (NeverClosed (passed ++ gap) (c :: tail) fault ∨
            Unmatched source.lines (passed ++ gap) (c :: tail) fault)) ∧
      (∀ shown column number, scan.error = some (.onLine (.unexpectedCharacter shown column) number) →
        scan.linesRead = number ∧ ∃ gap c tail, rest = gap ++ c :: tail ∧
          (∀ d ∈ gap, Unicode.isWhiteSpace d = true) ∧ c ∈ faultChars ∧
            shown.toList[column]? = some c) ∧
      ∀ n,
        let asked := (TokenStream.ofSource source).requests n
        asked.1 = ((List.range n).map fun request =>
          (scan.tokens.map .ok ++ scan.error.toList.map .error)[request]?) ∧
        ∀ before fault after, asked.1 = before ++ some (.error fault) :: after →
          (∀ answer ∈ after, answer = none) ∧ asked.2.next = (none, asked.2) := by
  intro source scan
  have areLines := text_lines_are_lines text.toList
  have source_eq : source = Source.ofText text := of_bytes_of_text text none
  have stays : ∀ u ∈ (none : Option Unclosed), StaysOpen u.enclosure.closer u.text :=
    fun u held => absurd held (Option.not_mem_none u)
  obtain ⟨tiled, rest, shape, tiles, leaves⟩ :=
    scan_lines_tiles none areLines stays (Nat.add_zero (0 + 1))
  have scan_eq : scanLines none 0 none (Source.textLines text.toList) = scan := by
    simp only [scan, source_eq, Source.scan, Source.ofText]
  rw [scan_eq] at tiles leaves
  rw [pending, List.nil_append] at shape
  have blamed {fault : Error} (error : scan.error = some fault) := leaves.blamed areLines shape error
  obtain ⟨passed, gap, rfl, white, ends⟩ := tiles.ends_with_last
  have found {fault : Error} (error : scan.error = some fault) : ∃ c tail, rest = c :: tail ∧
      Unicode.isWhiteSpace c = false ∧ (NeverClosed (passed ++ gap) (c :: tail) fault ∨
        Unmatched source.lines (passed ++ gap) (c :: tail) fault) := by
    rw [source_eq]
    rcases blamed error with never | ⟨unmatched, c, tail, _, _, rfl, member, -⟩
    · obtain ⟨enclosure, body, rfl, -⟩ := id never
      obtain ⟨c, tail, start, dark⟩ := dark_of_opener enclosure body
      rw [start] at never
      exact ⟨c, tail, start, dark, .inl never⟩
    · exact ⟨c, tail, rfl, dark_of_fault_char c member, .inr unmatched⟩
  refine ⟨passed, gap ++ rest, ?_, ends, fun fault => ⟨fun error => ?_, ?_⟩, ?_, requests_of_scan source⟩
  · rw [← flatten_text_lines, shape, List.append_assoc]
  · obtain ⟨c, tail, rfl, dark, blame⟩ := found error
    exact ⟨gap, c, tail, rfl, white, dark, blame⟩
  · rintro ⟨gap', c', tail', same, white', dark', blame'⟩
    cases error : scan.error with
    | none =>
      obtain ⟨-, rfl⟩ := leaves.clean error
      have member : c' ∈ gap := by
        rw [List.append_nil] at same
        simp [same]
      rw [white c' member] at dark'
      cases dark'
    | some fault' =>
      obtain ⟨c, tail, rfl, dark, blame⟩ := found error
      obtain ⟨rfl, rfl, rfl⟩ := white_prefix_unique white dark white' dark' same
      rw [blame_unique blame blame']
  · intro shown column number error
    rcases blamed error with ⟨enclosure, body, -, -, same⟩ | ⟨-, c, tail, _, _, rfl, member, same, stands⟩
    · cases enclosure <;> cases same
    · cases same
      exact ⟨rfl, gap, c, tail, rfl, white, member, stands⟩

end TypeDescription
