import TypeDescription.Proofs.Interruptions
import TypeDescription.Proofs.Notes
import TypeDescription.Proofs.TextLines

/-!
Line comments are transparent: a source that is read without an error is read the same with a note at
the end of any of its lines that leaves nothing unclosed. The exception is a line with a letter set,
which has to be the last thing on its line.
-/

namespace TypeDescription

open Lexeme (ClosesField closes_field_append)

/-! ## Where affix patterns stand -/

namespace Stage

/-- Affix patterns may follow. -/
def InAffixes : Stage → Prop
  | affixes .. => True
  | _ => False

variable {head : Head} {frames : List Frame} {slot : Slot} {t : Token}

private theorem pattern_ne_close (kind : t.kind = .affixPattern) (shape : ListShape) :
    t.kind ≠ shape.close := by
  cases shape <;> simp [kind, ListShape.close]

private theorem identifier_ne_close (kind : t.kind = .identifier) (shape : ListShape) :
    t.kind ≠ shape.close := by
  cases shape <;> simp [kind, ListShape.close]

private theorem read_term_of_pattern (kind : t.kind = .affixPattern) :
    readTerm head frames slot t = .error .missingTerm := by
  simp [readTerm, kind, AtomKind.ofTokenKind?]

private theorem read_term_of_identifier (kind : t.kind = .identifier) :
    readTerm head frames slot t = goOn head frames (.joined (slot.fill (.atom .name t.text))) := by
  simp [readTerm, kind, AtomKind.ofTokenKind?, goOn]

/-- Neither a pattern nor a name may follow a complete term. -/
private theorem read_after_term_refused {terms : Series Phrase} {progress : Progress}
    (kind : t.kind = .affixPattern ∨ t.kind = .identifier) :
    readAfterTerm head frames terms t ≠ .ok progress := by
  have other : ∀ shape : ListShape, t.kind ≠ shape.close :=
    kind.elim pattern_ne_close identifier_ne_close
  fun_cases readAfterTerm head frames terms t
  case case10 closes | case12 closes => exact absurd closes (other _)
  all_goals grind

theorem pattern_refused {stage : Stage} {progress : Progress} (kind : t.kind = .affixPattern)
    (taken : stage.read t = .ok progress) : stage.InAffixes := by
  have other := pattern_ne_close kind
  cases stage with
  | affixes old side patterns => trivial
  | operator => simp [read, kind] at taken
  | opened old => simp [read, read_term_of_pattern, kind] at taken
  | body head frames point =>
    cases point with
    | joined terms => exact absurd taken (read_after_term_refused (.inl kind))
    | _ => simp [read, readBody, readItem, readFeatureName, read_term_of_pattern, kind, kind ▸ other _] at taken
  | documented head terms doc => simp [read, kind] at taken

theorem not_in_affixes_of_identifier {stage stage' : Stage} {old : Option OldSpelling}
    (kind : t.kind = .identifier) (taken : stage.read t = .ok (.next stage' old)) : ¬ stage'.InAffixes := by
  have other := identifier_ne_close kind
  cases stage with
  | operator => simp [read, kind] at taken
  | opened old =>
    simp [read, read_term_of_identifier, goOn, kind] at taken
    simp [← taken.1, InAffixes]
  | affixes old side patterns =>
    simp [read, read_term_of_identifier, goOn, kind] at taken
    simp [← taken.1, InAffixes]
  | body head frames point =>
    cases point with
    | joined terms => exact absurd taken (read_after_term_refused (.inr kind))
    | listOpen slot shape done => simp [read, readBody, other] at taken
    | _ =>
      simp [read, readBody, readItem, readFeatureName, read_term_of_identifier, goOn, kind, kind ▸ other _]
        at taken
      simp [← taken.1, InAffixes]
  | documented head terms doc => simp [read, kind] at taken

end Stage

namespace Reader

/-- Affix patterns may follow. -/
def InAffixes : Reader → Prop
  | idle => False
  | within _ _ stage => stage.InAffixes

theorem pattern_refused {reader : Reader} {t : Token} {step : Step} (kind : t.kind = .affixPattern)
    (taken : reader.read t = .ok step) : reader.InAffixes := by
  have plain : t.isComment = false := by rw [Token.isComment, kind]; rfl
  cases taken_of_read taken with
  | item answer => simp [readItem, kind] at answer
  | comment comment => exact absurd (plain.symm.trans comment) Bool.false_ne_true
  | next answer => exact Stage.pattern_refused kind answer
  | complete answer => exact Stage.pattern_refused kind answer

theorem not_in_affixes_of_identifier {reader : Reader} {t : Token} {step : Step}
    (kind : t.kind = .identifier) (taken : reader.read t = .ok step) : ¬ step.reader.InAffixes := by
  have plain : t.isComment = false := by rw [Token.isComment, kind]; rfl
  cases taken_of_read taken with
  | item answer =>
    simp [readItem, kind] at answer
    rw [← answer]
    exact id
  | comment comment => exact absurd (plain.symm.trans comment) Bool.false_ne_true
  | next answer => exact Stage.not_in_affixes_of_identifier kind answer
  | complete => exact id

/-- Of tokens that are read without an error no pattern follows a name. -/
theorem patterns_apart_of_run {fault : Option Error} {reader : Reader} {tokens : List Token}
    (whole : (run fault reader tokens).error = none) : PatternsApart tokens := by
  induction tokens generalizing reader with
  | nil => exact List.isChain_nil
  | cons t rest ih =>
    rw [run] at whole
    cases taken : reader.read t with
    | error e =>
      rw [taken] at whole
      cases whole
    | ok step =>
      rw [taken] at whole
      change (run fault step.reader rest).error = none at whole
      cases rest with
      | nil => exact List.isChain_singleton t
      | cons u rest =>
        refine List.isChain_cons_cons.mpr ⟨?_, ih whole⟩
        rintro ⟨name, pattern⟩
        rw [run] at whole
        cases taken' : step.reader.read u with
        | error e =>
          rw [taken'] at whole
          cases whole
        | ok step' => exact not_in_affixes_of_identifier name taken (pattern_refused pattern taken')

end Reader

/-! ## Notes in a text -/

/-- What is read of a line with a note: the note may lose a carriage return at its end. -/
theorem TextLine.text_lines_noted (line : TextLine) {comment : List Char} (plain : '\n' ∉ comment) :
    ∃ kept, (comment = kept ∨ comment = kept ++ ['\r']) ∧ Source.textLines (line.textWith (note comment)) =
      Source.textLines line.above ++
        (line.content ++ (note kept ++ line.ending)) :: Source.textLines line.below := by
  have plain' : '\n' ∉ line.content ++ note comment := by simp [note, line.plain, plain]
  rw [line.text_lines_with (by simp [note, plain]), TextLine.ending]
  rcases line.ends with ⟨ends, -⟩ | ends | ⟨ends, -⟩
  · by_cases returned : comment.getLast? = some '\r'
    · obtain ⟨kept, rfl⟩ := List.getLast?_eq_some_iff.mp returned
      refine ⟨kept, .inr rfl, ?_⟩
      have dropped := drop_return_return_feed (s := line.content ++ note kept)
      simp only [List.append_assoc, note, List.cons_append, List.nil_append, ends] at dropped ⊢
      rw [dropped]
      rfl
    · refine ⟨comment, .inl rfl, ?_⟩
      have last : (line.content ++ note comment).getLast? ≠ some '\r' := by
        rw [List.getLast?_append_of_ne_nil _ (by simp [note]), note, List.getLast?_cons_cons]
        cases comment with
        | nil => simp
        | cons c rest => rwa [List.getLast?_cons_cons]
      rw [ends, drop_return_feed plain' last, List.append_assoc]
      rfl
  · refine ⟨comment, .inl rfl, ?_⟩
    rw [ends, drop_return_return_feed, List.append_assoc]
    rfl
  · refine ⟨comment, .inl rfl, ?_⟩
    rw [ends, List.append_nil, drop_return_of_unreturned (unreturned_of_plain plain'), if_pos rfl,
      List.append_nil]

namespace TextLine

variable (line : TextLine)

/-- The source with something added at the end of the line, before its terminator. -/
def sourceWith (addition : List Char) : Source := .ofText (String.ofList (line.textWith addition))

/-- The source that the line is of. -/
def source : Source := .ofText (String.ofList line.text)

theorem scan_source : line.source.scan = scanLines none 0 none (Source.textLines line.text) := by
  rw [source, Source.scan, Source.ofText, String.toList_ofList]

theorem scan_source_with (addition : List Char) :
    (line.sourceWith addition).scan =
      scanLines none 0 none (Source.textLines (line.textWith addition)) := by
  rw [sourceWith, Source.scan, Source.ofText, String.toList_ofList]

theorem scan_noted {comment : List Char} (plain : '\n' ∉ comment) (whole : line.source.scan.error = none)
    (closed : ∀ t ∈ line.source.scan.tokens, t.line ≤ line.number → t.lastLine ≤ line.number)
    (unaffected : Unaffected comment line.number line.source.scan.tokens) :
    (line.sourceWith (note comment)).scan.SameAs line.source.scan := by
  obtain ⟨kept, same, noted⟩ := line.text_lines_noted plain
  have plain' : '\n' ∉ kept := by
    rcases same with rfl | rfl
    · exact plain
    · exact fun inside => plain (List.mem_append_left _ inside)
  have closes : ClosesField kept → ClosesField comment := by
    rcases same with rfl | rfl
    · exact id
    · exact (closes_field_append (by simp)).mpr
  have unaffected' : Unaffected kept line.number line.source.scan.tokens :=
    { unaffected with
      patterns := fun t member here pattern =>
        (unaffected.patterns t member here pattern).imp_right fun unclosed => unclosed ∘ closes }
  rw [scan_source, text_lines] at whole closed unaffected' ⊢
  rw [scan_source_with, noted]
  refine scan_lines_noted plain' line.ending_cases line.plain ?_
    (fun u held => nomatch held) whole closed unaffected'
  rw [← line.length_above, Nat.zero_add]

end TextLine

private theorem without_comments_of_read (options : ReadOptions) (source : Source) :
    (source.read options).withoutComments = match options.name with
      | some name => source.readAll.withoutComments.withSource name
      | none => source.readAll.withoutComments := by
  obtain ⟨name, comments⟩ := options
  cases name <;> cases comments <;> simp [Source.read, Outcome.withSource, Outcome.withoutComments]

end TypeDescription
