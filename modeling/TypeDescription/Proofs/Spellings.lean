import TypeDescription.Declaration.Reader
import TypeDescription.Proofs.Phrases

/-!
What a reader has read. Every state of the machine stands for the tokens that led to it, and
`consumed` gives them back: the frames hold the parts of the derivation to the left of the place
where reading goes on. A step adds its token at the end (`read_consumed`), so a definition that is
complete is spelled by exactly the tokens it was read from.
-/

namespace TypeDescription

theorem exists_concat_of_ne_nil {s : List α} (nonempty : s ≠ []) :
    ∃ before last, s = before ++ [last] :=
  ⟨_, _, (List.dropLast_concat_getLast nonempty).symm⟩

namespace Spelling

/-- Parts, each with the separator after it. -/
def opened (separator : TokenKind) (parts : List Spelling) : Spelling :=
  parts.flatMap (· ++ symbol separator)

@[simp] theorem opened_nil (separator : TokenKind) : opened separator [] = [] := rfl

@[simp] theorem opened_concat (separator : TokenKind) (parts : List Spelling) (part : Spelling) :
    opened separator (parts ++ [part]) = opened separator parts ++ part ++ symbol separator := by
  simp [opened]

/-- Between the parts of a sequence stand separators, and none after the last. -/
theorem joined_concat (separator : TokenKind) (parts : List Spelling) (last : Spelling) :
    joined separator (parts ++ [last]) = opened separator parts ++ last := by
  induction parts with
  | nil => exact List.intercalate_singleton
  | cons part rest ih =>
    have more : rest ++ [last] ≠ [] := by simp
    rw [List.cons_append, joined, List.intercalate_cons_of_ne_nil more, ← joined, ih]
    simp [opened]

/-- The separator after the last part is all that is missing. -/
theorem opened_of_ne_nil (separator : TokenKind) {parts : List Spelling} (nonempty : parts ≠ []) :
    opened separator parts = joined separator parts ++ symbol separator := by
  obtain ⟨before, last, rfl⟩ := exists_concat_of_ne_nil nonempty
  rw [opened_concat, joined_concat]

theorem opened_series (separator : TokenKind) (f : α → Spelling) (s : Series α) :
    opened separator (s.toList.map f) = joined separator (s.toList.map f) ++ symbol separator :=
  opened_of_ne_nil separator (List.cons_ne_nil _ _)

end Spelling

open Spelling

/-! ## Tokens whose text is known from their kind -/

/-- The kinds that are always written in the same way. -/
def TokenKind.isSymbol : TokenKind → Bool
  | .addendumOperator | .ellipsis | .dot | .ampersand | .comma | .avmOpen | .diffListOpen
  | .consListOpen | .avmClose | .diffListClose | .consListClose => true
  | _ => false

namespace Token

/-- A token without its place. -/
def bare (t : Token) : TokenKind × String := (t.kind, t.text)

/-- The text of a symbol is known from its kind, and so is that of an operator, in its old spelling
or not. -/
structure Standard (t : Token) : Prop where
  symbol : t.kind.isSymbol = true → t.text = t.kind.description
  operator : t.kind = .definitionOperator → t.text = ":=" ∨ t.text = ":<"

theorem Standard.bare_eq {t : Token} {kind : TokenKind} (standard : t.Standard) (same : t.kind = kind)
    (fixed : kind.isSymbol = true) : [t.bare] = Spelling.symbol kind := by
  subst same
  simp only [bare, Spelling.symbol, standard.symbol fixed]

end Token

theorem AffixSide.ofWord?_eq_some_iff {word : String} {side : AffixSide} :
    AffixSide.ofWord? word = some side ↔ word = side.word := by
  constructor
  · intro marked
    unfold AffixSide.ofWord? at marked
    split at marked
    · next same => cases marked; exact same
    · split at marked
      · next same => cases marked; exact same
      · cases marked
  · rintro rfl
    cases side <;> rfl

/-! ## The tokens that a state stands for -/

/-- The delimiter before a list. -/
def ListShape.opener : ListShape → TokenKind
  | .cons => .consListOpen
  | .diff => .diffListOpen

namespace Slot

/-- The terms before a slot, and its docstring. -/
def consumed (slot : Slot) : Spelling :=
  opened .ampersand (slot.before.map Phrase.spelling) ++ ofDoc slot.doc

theorem consumed_fill (slot : Slot) {term : Option String → Phrase} {core : Spelling}
    (spelled : (term slot.doc).spelling = ofDoc slot.doc ++ core) :
    spellingOfSeries (slot.fill term) = slot.consumed ++ core := by
  rw [spelling_of_series, fill, Series.toList_ofLast, List.map_append, List.map_singleton,
    joined_concat, spelled, consumed, List.append_assoc]

end Slot

/-- The features of an AVM that goes on. -/
def featuresConsumed (slot : Slot) (done : List (Series String × Series Phrase)) : Spelling :=
  slot.consumed ++ symbol .avmOpen ++ opened .comma (done.map spellingOfFeature)

/-- The items of a list that goes on. -/
def itemsConsumed (slot : Slot) (shape : ListShape) (done : List (Series Phrase)) : Spelling :=
  slot.consumed ++ symbol shape.opener ++ opened .comma (done.map spellingOfSeries)

/-- A frame, up to the conjunction that is read inside it. -/
def Frame.consumed : Frame → Spelling
  | .feature slot done names => featuresConsumed slot done ++ ofNames names
  | .item slot shape done => itemsConsumed slot shape done
  | .tail slot shape done last =>
    itemsConsumed slot shape done ++ spellingOfSeries last ++ symbol .dot

/-- Frames, the innermost first. -/
def framesConsumed : List Frame → Spelling
  | [] => []
  | frame :: frames => framesConsumed frames ++ frame.consumed

/-- What was read inside the innermost frame. -/
def Point.consumed : Point → Spelling
  | .term slot => slot.consumed
  | .joined terms => spellingOfSeries terms
  | .avmStart slot => featuresConsumed slot []
  | .featureName slot done names =>
    featuresConsumed slot done ++ opened .dot (names.map fun name => [(.identifier, name)])
  | .featureNamed slot done names => featuresConsumed slot done ++ ofNames names
  | .listStart slot shape => itemsConsumed slot shape []
  | .listItem slot shape done => itemsConsumed slot shape done
  | .listOpen slot shape done => itemsConsumed slot shape done ++ symbol .ellipsis

/-- What was read of a definition after its identifier. -/
def Stage.consumed : Stage → Spelling
  | .operator => []
  | .opened old => Head.spelling (.definition old none)
  | .affixes old side patterns => Head.spelling (.definition old (some (side, patterns)))
  | .body head frames point => head.spelling ++ framesConsumed frames ++ point.consumed
  | .documented head terms doc => head.spelling ++ spellingOfSeries terms ++ ofDoc (some doc)

/-- What was read of a definition after its identifier, the last token included. -/
def Progress.consumed : Progress → Spelling
  | .next stage _ => stage.consumed
  | .complete head body => head.spelling ++ body.spelling ++ symbol .dot

/-! ## One step -/

namespace Stage

variable {head : Head} {frames : List Frame} {slot : Slot} {shape : ListShape} {t : Token}
  {progress : Progress}

/-- What was read before a point of the body. -/
private def around (head : Head) (frames : List Frame) : Spelling :=
  head.spelling ++ framesConsumed frames

private theorem go_on_consumed {point : Point} (went : goOn head frames point = .ok progress) :
    progress.consumed = around head frames ++ point.consumed := by
  cases went
  rfl

private theorem read_term_consumed (standard : t.Standard)
    (went : readTerm head frames slot t = .ok progress) :
    progress.consumed = around head frames ++ slot.consumed ++ [t.bare] := by
  revert went
  fun_cases readTerm head frames slot t <;> intro went
  case case1 before kind =>
    rw [go_on_consumed went]
    simp [Point.consumed, Slot.consumed, ofDoc, Token.bare, kind]
  case case2 doc kind outermost =>
    obtain rfl := List.isEmpty_iff.mp outermost
    cases went
    simp [Progress.consumed, around, framesConsumed, Slot.consumed, Body.spelling,
      standard.bare_eq kind rfl]
  case case4 kind =>
    rw [go_on_consumed went, standard.bare_eq kind rfl]
    simp [Point.consumed, featuresConsumed]
  case case5 kind | case6 kind =>
    rw [go_on_consumed went, standard.bare_eq kind rfl]
    simp [Point.consumed, itemsConsumed, ListShape.opener]
  case case7 atom old _ _ _ made _ _ =>
    have kind := AtomKind.ofTokenKind?_eq_some_iff.mp made
    have filled : spellingOfSeries (slot.fill (.atom atom t.text)) = slot.consumed ++ [t.bare] :=
      slot.consumed_fill (by rw [Phrase.spelling, Token.bare, kind])
    cases went
    simp only [Progress.consumed, Stage.consumed, Point.consumed, filled, around, List.append_assoc]
  all_goals cases went

private theorem read_feature_name_consumed {done : List (Series String × Series Phrase)}
    {names : List String} (went : readFeatureName head frames slot done names t = .ok progress) :
    progress.consumed = around head frames ++
      (Point.featureName slot done names).consumed ++ [t.bare] := by
  revert went
  fun_cases readFeatureName head frames slot done names t <;> intro went
  case case1 kind =>
    rw [go_on_consumed went]
    simp [Point.consumed, ofNames, Series.toList_ofLast, joined_concat, Token.bare, kind]
  case case2 => cases went

private theorem read_item_consumed {done : List (Series Phrase)} (standard : t.Standard)
    (went : readItem head frames slot shape done t = .ok progress) :
    progress.consumed = around head frames ++ itemsConsumed slot shape done ++ [t.bare] := by
  revert went
  fun_cases readItem head frames slot shape done t <;> intro went
  case case1 kind =>
    rw [go_on_consumed went, standard.bare_eq kind rfl]
    simp [Point.consumed]
  case case2 kind =>
    rw [read_term_consumed standard went]
    simp [around, framesConsumed, Frame.consumed, Slot.consumed, Slot.start, ofDoc]

/-- The items of a list and what its ending adds to them. -/
private def partsConsumed (slot : Slot) (shape : ListShape) (parts : List Spelling) : Spelling :=
  slot.consumed ++ symbol shape.opener ++ joined .comma parts

private theorem close_list_consumed {items : List (Series Phrase)} {ending : Ending}
    (standard : t.Standard) (kind : t.kind = shape.close)
    (went : closeList head frames slot shape items ending = .ok progress) :
    progress.consumed = around head frames ++
      partsConsumed slot shape (items.map spellingOfSeries ++ ending.spellings) ++ [t.bare] := by
  revert went
  fun_cases closeList head frames slot shape items ending <;> intro went
  case case1 =>
    rw [go_on_consumed went, standard.bare_eq kind rfl, Point.consumed, slot.consumed_fill
      (by rw [Phrase.spelling, List.append_assoc, List.append_assoc])]
    simp [partsConsumed, ListShape.opener, ListShape.close]
  case case2 =>
    rw [go_on_consumed went, standard.bare_eq kind rfl, Point.consumed, slot.consumed_fill
      (by rw [Phrase.spelling, List.append_assoc, List.append_assoc])]
    simp [partsConsumed, ListShape.opener, ListShape.close, Ending.spellings]
  case case3 => cases went

private theorem read_after_term_consumed {terms : Series Phrase} (standard : t.Standard)
    (went : readAfterTerm head frames terms t = .ok progress) :
    progress.consumed = around head frames ++ spellingOfSeries terms ++ [t.bare] := by
  revert went
  fun_cases readAfterTerm head frames terms t <;> intro went
  case case1 kind =>
    rw [go_on_consumed went, standard.bare_eq kind rfl, spelling_of_series]
    simp [Point.consumed, Slot.consumed, opened_series, ofDoc]
  case case2 kind =>
    cases went
    simp [Progress.consumed, Stage.consumed, around, framesConsumed, Token.bare, kind, ofDoc]
  case case3 kind =>
    cases went
    simp [Progress.consumed, around, framesConsumed, Body.spelling, standard.bare_eq kind rfl, ofDoc]
  case case5 slot done names frames kind =>
    rw [go_on_consumed went, standard.bare_eq kind rfl]
    simp [Point.consumed, around, framesConsumed, Frame.consumed, featuresConsumed, spellingOfFeature]
  case case6 slot done names frames kind =>
    rw [go_on_consumed went, standard.bare_eq kind rfl, Point.consumed, slot.consumed_fill
      (by rw [Phrase.spelling, List.append_assoc, List.append_assoc])]
    simp [around, framesConsumed, Frame.consumed, featuresConsumed, spellingOfFeature, joined_concat]
  case case8 slot shape done frames kind =>
    rw [go_on_consumed went, standard.bare_eq kind rfl]
    simp [Point.consumed, around, framesConsumed, Frame.consumed, itemsConsumed]
  case case9 slot shape done frames kind =>
    rw [go_on_consumed went, standard.bare_eq kind rfl]
    simp [Point.consumed, around, framesConsumed, Frame.consumed, itemsConsumed, Slot.consumed,
      Slot.start, ofDoc]
  case case10 slot shape done frames _ _ _ kind =>
    rw [close_list_consumed standard kind went]
    simp [around, framesConsumed, Frame.consumed, itemsConsumed, partsConsumed, Ending.spellings,
      joined_concat]
  case case12 slot shape done last frames _ kind =>
    rw [close_list_consumed standard kind went]
    simp [around, framesConsumed, Frame.consumed, itemsConsumed, partsConsumed, Ending.spellings,
      joined_concat]
  all_goals cases went

private theorem read_body_consumed {point : Point} (standard : t.Standard)
    (went : readBody head frames point t = .ok progress) :
    progress.consumed = around head frames ++ point.consumed ++ [t.bare] := by
  revert went
  fun_cases readBody head frames point t <;> intro went
  case case1 => exact read_term_consumed standard went
  case case2 => exact read_after_term_consumed standard went
  case case3 slot kind =>
    rw [go_on_consumed went, standard.bare_eq kind rfl, Point.consumed, slot.consumed_fill
      (by rw [Phrase.spelling, List.append_assoc, List.append_assoc])]
    simp [Point.consumed, featuresConsumed, joined]
  case case4 slot kind =>
    rw [read_feature_name_consumed went]
    simp [Point.consumed]
  case case5 => exact read_feature_name_consumed went
  case case6 slot done names kind =>
    rw [go_on_consumed went, standard.bare_eq kind rfl]
    simp [Point.consumed, ofNames, opened_series]
  case case7 slot done names kind =>
    rw [read_term_consumed standard went]
    simp [around, framesConsumed, Frame.consumed, Point.consumed, Slot.consumed, Slot.start, ofDoc]
  case case8 slot shape kind =>
    rw [close_list_consumed standard kind went]
    simp [Point.consumed, itemsConsumed, partsConsumed, Ending.spellings, joined]
  case case9 => exact read_item_consumed standard went
  case case10 => exact read_item_consumed standard went
  case case11 slot shape done kind =>
    rw [close_list_consumed standard kind went]
    simp [Point.consumed, itemsConsumed, partsConsumed, Ending.spellings, joined_concat]
  case case12 => cases went

/-- A step adds its token to what was read before. -/
theorem read_consumed {stage : Stage} (standard : t.Standard) (went : stage.read t = .ok progress) :
    progress.consumed = stage.consumed ++ [t.bare] := by
  revert went
  fun_cases read stage t <;> intro went
  case case1 kind old =>
    cases went
    simp [Progress.consumed, Stage.consumed, Head.spelling, Token.bare, kind, old]
  case case2 kind current =>
    cases went
    have text := (standard.operator kind).resolve_right current
    simp [Progress.consumed, Stage.consumed, Head.spelling, Token.bare, kind, text]
  case case3 kind =>
    rw [go_on_consumed went, standard.bare_eq kind rfl]
    simp [around, Head.spelling, framesConsumed, Point.consumed, Slot.consumed, Slot.start, ofDoc,
      Stage.consumed]
  case case5 old kind side marked =>
    cases went
    simp [Progress.consumed, Stage.consumed, Head.spelling, Token.bare, kind,
      AffixSide.ofWord?_eq_some_iff.mp marked]
  case case7 old kind =>
    rw [read_term_consumed standard went]
    simp [around, framesConsumed, Slot.consumed, Slot.start, ofDoc, Stage.consumed]
  case case8 old side patterns kind =>
    cases went
    simp [Progress.consumed, Stage.consumed, Head.spelling, Token.bare, kind]
  case case9 old side patterns kind =>
    rw [read_term_consumed standard went]
    simp [around, framesConsumed, Slot.consumed, Slot.start, ofDoc, Stage.consumed]
  case case10 => exact read_body_consumed standard went
  case case11 head terms doc kind =>
    cases went
    simp [Progress.consumed, Stage.consumed, Body.spelling, standard.bare_eq kind rfl]
  all_goals cases went

/-- A definition is complete with a dot, and is spelled by what was read. -/
theorem read_complete {stage : Stage} {head : Head} {body : Body} (standard : t.Standard)
    (went : stage.read t = .ok (.complete head body)) :
    t.kind = .dot ∧ head.spelling ++ body.spelling ++ symbol .dot = stage.consumed ++ [t.bare] := by
  have spelled := read_consumed standard went
  refine ⟨?_, spelled⟩
  have last := (List.append_inj' spelled rfl).2
  exact (congrArg Prod.fst (List.singleton_inj.mp last)).symm

end Stage

end TypeDescription
