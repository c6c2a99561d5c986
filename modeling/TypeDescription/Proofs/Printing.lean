import TypeDescription.Proofs.Phrases
import TypeDescription.Proofs.Relexing
import TypeDescription.Term.Text

/-!
Printed texts. A printed text starts with something other than white space and a parenthesis, and
it scans into its pieces before everything that keeps apart from it. Texts with this property can
be put together: with separators between them, within delimiters, and behind a docstring.
-/

namespace TypeDescription

open Lexeme Spelling

/-! ## Neighbours -/

/-- The text starts with a character that is neither white space nor a parenthesis. -/
def Starts (s : List Char) : Prop :=
  ∃ c rest, s = c :: rest ∧ Unicode.isWhiteSpace c = false ∧ c ≠ '('

theorem Starts.append {first : List Char} (starts : Starts first) (second : List Char) :
    Starts (first ++ second) := by
  obtain ⟨c, rest, rfl, dark, other⟩ := starts
  exact ⟨c, rest ++ second, rfl, dark, other⟩

/-- What may follow every token: it keeps apart, and opens no parenthesis. -/
def Breaks (s : List Char) : Prop := Apart s ∧ NoParenthesis s

theorem Starts.no_parenthesis {s : List Char} (starts : Starts s) : NoParenthesis s := by
  obtain ⟨c, rest, rfl, dark, other⟩ := starts
  unfold NoParenthesis
  rw [List.dropWhile_cons_of_neg (by simp [dark])]
  exact fun same => other (Option.some.inj same)

theorem Starts.space {s : List Char} (starts : Starts s) : Breaks (' ' :: s) := by
  refine ⟨fun c member => ?_, ?_⟩
  · obtain rfl := Option.some.inj member
    exact .inl rfl
  · have skipped := starts.no_parenthesis
    unfold NoParenthesis at skipped ⊢
    rwa [List.dropWhile_cons_of_pos white_space]

theorem breaks_of_mark {c : Char} (mark : c = ',' ∨ c = '.') (s : List Char) : Breaks (c :: s) := by
  have dark : Unicode.isWhiteSpace c = false ∧ c ≠ '(' := by
    rcases mark with rfl | rfl <;> decide
  refine ⟨fun d member => ?_, Starts.no_parenthesis ⟨c, s, rfl, dark.1, dark.2⟩⟩
  obtain rfl := Option.some.inj member
  exact .inr (.inr mark)

theorem Starts.line {s : List Char} (starts : Starts s) : Breaks ('\n' :: ' ' :: ' ' :: s) := by
  refine ⟨fun c member => ?_, ?_⟩
  · obtain rfl := Option.some.inj member
    exact .inr (.inl rfl)
  · have skipped := starts.no_parenthesis
    unfold NoParenthesis at skipped ⊢
    rwa [List.dropWhile_cons_of_pos white_feed, List.dropWhile_cons_of_pos white_space,
      List.dropWhile_cons_of_pos white_space]

theorem Scans.space {s : List Char} {pieces : Spelling} (scans : Scans s pieces) :
    Scans (' ' :: s) pieces := .white white_space (by simp) scans

theorem Scans.line {s : List Char} {pieces : Spelling} (scans : Scans s pieces) :
    Scans ('\n' :: s) pieces := .white white_feed (by simp) scans

/-! ## Printed texts -/

/-- The text is scanned into the pieces before everything that keeps apart from it. -/
structure Printed (text : String) (pieces : Spelling) : Prop where
  starts : Starts text.toList
  scans : ∀ after rest, Breaks after → Scans after rest → Scans (text.toList ++ after) (pieces ++ rest)

/-- The text is scanned into the pieces before everything that starts like a printed text, and it
keeps apart from the text before it. -/
structure Separates (text : String) (pieces : Spelling) : Prop where
  breaks : ∀ after, Starts after → Breaks (text.toList ++ after)
  scans : ∀ after rest, Starts after → Scans after rest → Scans (text.toList ++ after) (pieces ++ rest)

section Parts

variable {first second separator : String} {pieces between later : Spelling}

theorem Printed.append (printed : Printed first pieces) (separates : Separates separator between)
    (printed' : Printed second later) :
    Printed (first ++ separator ++ second) (pieces ++ between ++ later) := by
  refine ⟨?_, fun after rest breaks scans => ?_⟩
  · rw [String.toList_append, String.toList_append]
    exact (printed.starts.append _).append _
  · have starts := printed'.starts.append after
    have inner := printed'.scans after rest breaks scans
    have middle := separates.scans _ _ starts inner
    have outer := printed.scans _ _ (separates.breaks _ starts) middle
    simpa only [String.toList_append, List.append_assoc] using outer

theorem starts_symbol {kind : TokenKind} (fixed : kind.isSymbol = true) :
    Starts kind.description.toList := by
  cases kind <;> cases fixed <;> exact ⟨_, _, rfl, by decide, by decide⟩

/-- Before a space every symbol is found. -/
theorem Scans.symbol_space {kind : TokenKind} (fixed : kind.isSymbol = true) {s : List Char}
    (scans : Scans s pieces) :
    Scans (kind.description.toList ++ ' ' :: s) (Spelling.symbol kind ++ pieces) :=
  .symbol fixed (fun _ => by simp) (fun _ => by simp) scans.space

theorem separates_space : Separates " " [] :=
  ⟨fun _ starts => starts.space, fun _ _ _ scans => scans.space⟩

/-- A separator with spaces around its symbol. -/
theorem separates_spaced {kind : TokenKind} (fixed : kind.isSymbol = true) :
    Separates (" " ++ kind.description ++ " ") (symbol kind) := by
  have space : " ".toList = [' '] := rfl
  refine ⟨fun after _ => ?_, fun after rest _ scans => ?_⟩
  · have breaks := ((starts_symbol fixed).append (' ' :: after)).space
    simpa only [String.toList_append, List.append_assoc, List.cons_append, List.nil_append,
      space] using breaks
  · have outer := (scans.symbol_space fixed).space
    simpa only [String.toList_append, List.append_assoc, List.cons_append, List.nil_append,
      space] using outer

theorem separates_comma : Separates ", " (symbol .comma) :=
  have fixed : TokenKind.comma.isSymbol = true := rfl
  ⟨fun _ _ => breaks_of_mark (.inl rfl) _, fun _ _ _ scans => scans.symbol_space fixed⟩

/-- Printed parts are joined by a separator. -/
theorem Printed.joined {kind : TokenKind} (separates : Separates separator (symbol kind))
    {text : α → String} {spelling : α → Spelling} {parts : List α} (nonempty : parts ≠ [])
    (each : ∀ part ∈ parts, Printed (text part) (spelling part)) :
    Printed (separator.intercalate (parts.map text)) (joined kind (parts.map spelling)) := by
  induction parts with
  | nil => exact absurd rfl nonempty
  | cons part rest ih =>
    obtain ⟨here, others⟩ := List.forall_mem_cons.mp each
    cases rest with
    | nil =>
      rw [List.map_singleton, List.map_singleton, String.intercalate_singleton, Spelling.joined,
        List.intercalate_singleton]
      exact here
    | cons next rest =>
      have printed := here.append separates (ih (List.cons_ne_nil _ _) others)
      rw [List.map_cons, List.map_cons, String.intercalate_cons_cons, Spelling.joined,
        List.map_cons, List.map_cons, List.intercalate_cons_cons]
      exact printed

/-! ## Delimiters -/

theorem Printed.symbol {kind : TokenKind} (fixed : kind.isSymbol = true) (dot : kind ≠ .dot)
    (list : kind ≠ .consListOpen) : Printed kind.description (symbol kind) :=
  ⟨starts_symbol fixed, fun _ _ _ scans =>
    scans.symbol fixed (fun same => absurd same dot) (fun same => absurd same list)⟩

theorem Printed.opened {kind : TokenKind} (fixed : kind.isSymbol = true)
    (printed : Printed first pieces) :
    Printed (kind.description ++ " " ++ first) (Spelling.symbol kind ++ pieces) := by
  have space : " ".toList = [' '] := rfl
  refine ⟨?_, fun after rest breaks scans => ?_⟩
  · rw [String.toList_append, String.toList_append]
    exact ((starts_symbol fixed).append _).append _
  · have inner := (printed.scans after rest breaks scans).symbol_space fixed
    simpa only [String.toList_append, List.append_assoc, List.cons_append, List.nil_append,
      space] using inner

/-- A printed text between delimiters. -/
theorem Printed.enclosed (printed : Printed first pieces) {opener closer : TokenKind}
    (fixed : opener.isSymbol = true)
    (closes : Printed closer.description (Spelling.symbol closer)) {before after : String}
    (opens : before = opener.description ++ " ") (ends : after = " " ++ closer.description) :
    Printed (before ++ first ++ after)
      (Spelling.symbol opener ++ (pieces ++ Spelling.symbol closer)) := by
  have inner := (printed.append separates_space closes).opened fixed
  rw [List.append_nil] at inner
  rw [opens, ends]
  simpa only [String.append_assoc] using inner

/-! ## Documented terms -/

/-- What is known of the text of a docstring. -/
structure IsDoc (doc : String) : Prop where
  encloses : Encloses Enclosure.docstring.closer doc.toList
  unreturned : Unreturned doc.toList

/-- A docstring stands before a printed text. -/
theorem Scans.doc {doc : String} (isDoc : IsDoc doc) {s : List Char} (scans : Scans s pieces) :
    Scans (("\"\"\"" ++ doc ++ "\"\"\"").toList ++ s) ((.docstring, doc) :: pieces) := by
  have found := Scans.enclosed isDoc.encloses isDoc.unreturned scans
  have delimiter : "\"\"\"".toList = ['"', '"', '"'] := rfl
  rw [String.ofList_toList] at found
  rw [String.toList_append, String.toList_append, delimiter, List.append_assoc, List.append_assoc]
  rw [List.append_assoc] at found
  exact found

theorem starts_doc (doc : String) : Starts ("\"\"\"" ++ doc ++ "\"\"\"").toList := by
  rw [String.toList_append, String.toList_append]
  have quote : Starts "\"\"\"".toList := ⟨'"', ['"', '"'], rfl, by decide, by decide⟩
  exact (quote.append _).append _

theorem Printed.documented {doc : Option String} (documented : ∀ d ∈ doc, IsDoc d)
    (printed : Printed first pieces) : Printed (docBefore doc ++ first) (ofDoc doc ++ pieces) := by
  cases doc with
  | none =>
    rw [docBefore, String.empty_append]
    exact printed
  | some doc =>
    have shape : docBefore (some doc) = "\"\"\"" ++ doc ++ "\"\"\"" ++ " " := by
      have delimiter : "\"\"\" " = "\"\"\"" ++ " " := rfl
      rw [docBefore, delimiter, String.append_assoc, String.append_assoc, String.append_assoc]
    have space : " ".toList = [' '] := rfl
    have starts := starts_doc doc
    have quoted {s : List Char} {pieces : Spelling} (scans : Scans s pieces) :=
      scans.doc (documented doc rfl)
    rw [shape]
    generalize "\"\"\"" ++ doc ++ "\"\"\"" = text at starts quoted
    refine ⟨?_, fun after rest breaks scans => ?_⟩
    · rw [String.toList_append, String.toList_append]
      exact (starts.append _).append _
    · have inner := quoted (printed.scans after rest breaks scans).space
      have piece : ofDoc (some doc) = [(.docstring, doc)] := rfl
      simpa only [String.toList_append, List.append_assoc, List.cons_append, List.nil_append, space,
        piece] using inner

end Parts

/-! ## Single tokens -/

theorem starts_name {text : List Char} (symbolic : IsSymbol text) : Starts text := by
  obtain ⟨c, rest, rfl⟩ := List.exists_cons_of_ne_nil symbolic.nonempty
  have here := symbolic.all c (List.mem_cons_self ..)
  refine ⟨c, rest, rfl, dark_of_symbol_char here, ?_⟩
  rintro rfl
  exact absurd here (by decide)

theorem Printed.name {text : String} (symbolic : IsSymbol text.toList)
    (unmarked : ¬ Marked text.toList) : Printed text [(.identifier, text)] :=
  ⟨starts_name symbolic, fun _ _ breaks scans => .name symbolic unmarked breaks.1 breaks.2 scans⟩

theorem Printed.string {text : String} (closed : ClosedBy '"' text.toList)
    (noFeed : '\n' ∉ text.toList) : Printed ("\"" ++ text ++ "\"") [(.string, text)] := by
  have shape : ("\"" ++ text ++ "\"").toList = '"' :: (text.toList ++ ['"']) := by
    rw [String.toList_append, String.toList_append]
    rfl
  refine ⟨?_, fun after rest breaks scans => ?_⟩
  · rw [shape]
    exact ⟨_, _, rfl, by decide, by decide⟩
  · rw [shape]
    exact .string closed noFeed breaks.1 scans

theorem Printed.regex {text : String} (closed : ClosedBy '$' text.toList)
    (noFeed : '\n' ∉ text.toList) : Printed ("^" ++ text ++ "$") [(.regex, text)] := by
  have shape : ("^" ++ text ++ "$").toList = '^' :: (text.toList ++ ['$']) := by
    rw [String.toList_append, String.toList_append]
    rfl
  refine ⟨?_, fun after rest _ scans => ?_⟩
  · rw [shape]
    exact ⟨_, _, rfl, by decide, by decide⟩
  · rw [shape]
    exact .regex closed noFeed scans

theorem Printed.coreference {tag : String} (symbolic : IsSymbol tag.toList)
    (noBar : tag.toList.head? ≠ some '|') :
    Printed ("#" ++ tag) [(.coreference, "#" ++ tag)] := by
  have shape : ("#" ++ tag).toList = '#' :: tag.toList := by
    rw [String.toList_append]
    rfl
  refine ⟨?_, fun after rest breaks scans => ?_⟩
  · rw [shape]
    exact ⟨_, _, rfl, by decide, by decide⟩
  · rw [shape]
    exact .coreference symbolic noBar breaks.1 scans

end TypeDescription
