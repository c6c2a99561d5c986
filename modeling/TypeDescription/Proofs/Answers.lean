import TypeDescription.Proofs.Spellings

/-!
What the reader answers to a token inside a definition. Whether a token is written in an old
spelling is seen from the token alone, and the reader says so of every token that it takes, whatever
stage the definition is in. A token that it does not take breaks a rule of the grammar: what the
definition means is looked at only when it is complete.
-/

namespace TypeDescription

namespace Token

/-- The old spelling in which a token is written, if it is. -/
def oldSpelling? (t : Token) : Option OldSpelling :=
  match t.kind with
  | .definitionOperator => if t.text = ":<" then some .subtypeOperator else none
  | .quotedSymbol => some .quotedSymbol
  | _ => none

/-- The warning about a token of the definition with this identifier, if its spelling is old. -/
def warning? (identifier : Option String) (t : Token) : Option Warning :=
  t.oldSpelling?.map fun spelling => { spelling, line := t.line, identifier }

theorem warning_of_plain {t : Token} (identifier : Option String) (plain : t.oldSpelling? = none) :
    t.warning? identifier = none := by
  rw [warning?, plain, Option.map_none]

theorem old_spelling_of_kind {t : Token} {kind : TokenKind} (same : t.kind = kind)
    (plain : kind ≠ .definitionOperator ∧ kind ≠ .quotedSymbol) : t.oldSpelling? = none := by
  obtain ⟨operator, symbol⟩ := plain
  rw [oldSpelling?, same]
  cases kind <;> first | rfl | contradiction

theorem old_spelling_of_comment {t : Token} (comment : t.isComment = true) : t.oldSpelling? = none := by
  apply old_spelling_of_kind rfl
  constructor <;> intro same <;> rw [isComment, same] at comment <;> cases comment

end Token

/-- Is this a rule about the order of tokens? -/
def Cause.isOfGrammar : Cause → Bool
  | .missingOperator | .missingDot | .unexpectedToken _ | .missingTerm | .missingFeatureName
  | .missingFeatureEnd | .missingItemEnd | .missingListEnd | .unboundedDiffList => true
  | _ => false

/-- The old spelling that is to be warned of. -/
def Progress.old? : Progress → Option OldSpelling
  | .next _ old => old
  | .complete .. => none

/-- An answer to a token: old spellings are told, and only the grammar is a reason to refuse it. -/
def Token.Answered (t : Token) : Except Cause Progress → Prop
  | .ok progress => progress.old? = t.oldSpelling?
  | .error cause => cause.isOfGrammar = true

namespace Stage

variable (head : Head) (frames : List Frame) (slot : Slot) (shape : ListShape)

private theorem go_on_answered (point : Point) {t : Token} (plain : t.oldSpelling? = none) :
    t.Answered (goOn head frames point) := plain.symm

private theorem read_term_answered (t : Token) : t.Answered (readTerm head frames slot t) := by
  fun_cases readTerm head frames slot t
  case case1 kind | case4 kind | case5 kind | case6 kind =>
    exact go_on_answered _ _ _ (Token.old_spelling_of_kind kind (by decide))
  case case2 kind _ => exact (Token.old_spelling_of_kind kind (by decide)).symm
  case case7 atom old _ _ _ made _ _ =>
    have kind := AtomKind.ofTokenKind?_eq_some_iff.mp made
    rw [Token.Answered, Progress.old?, Token.oldSpelling?, kind]
    cases atom <;> rfl
  all_goals rfl

private theorem read_feature_name_answered (done : List (Series String × Series Phrase))
    (names : List String) (t : Token) : t.Answered (readFeatureName head frames slot done names t) := by
  fun_cases readFeatureName head frames slot done names t
  case case1 kind => exact go_on_answered _ _ _ (Token.old_spelling_of_kind kind (by decide))
  case case2 => rfl

private theorem read_item_answered (done : List (Series Phrase)) (t : Token) :
    t.Answered (readItem head frames slot shape done t) := by
  fun_cases readItem head frames slot shape done t
  case case1 kind => exact go_on_answered _ _ _ (Token.old_spelling_of_kind kind (by decide))
  case case2 => exact read_term_answered _ _ _ t

private theorem close_list_answered (items : List (Series Phrase)) (ending : Ending) {t : Token}
    (kind : t.kind = shape.close) : t.Answered (closeList head frames slot shape items ending) := by
  have plain : t.oldSpelling? = none :=
    Token.old_spelling_of_kind kind (by cases shape <;> decide)
  fun_cases closeList head frames slot shape items ending
  case case1 | case2 => exact go_on_answered _ _ _ plain
  case case3 => rfl

private theorem read_after_term_answered (terms : Series Phrase) (t : Token) :
    t.Answered (readAfterTerm head frames terms t) := by
  fun_cases readAfterTerm head frames terms t
  case case1 kind | case5 kind | case6 kind | case8 kind | case9 kind =>
    exact go_on_answered _ _ _ (Token.old_spelling_of_kind kind (by decide))
  case case2 kind | case3 kind => exact (Token.old_spelling_of_kind kind (by decide)).symm
  case case10 kind | case12 kind => exact close_list_answered _ _ _ _ _ _ kind
  all_goals rfl

private theorem read_body_answered (point : Point) (t : Token) :
    t.Answered (readBody head frames point t) := by
  fun_cases readBody head frames point t
  case case1 | case7 => exact read_term_answered _ _ _ t
  case case2 => exact read_after_term_answered _ _ _ t
  case case3 kind | case6 kind =>
    exact go_on_answered _ _ _ (Token.old_spelling_of_kind kind (by decide))
  case case4 | case5 => exact read_feature_name_answered _ _ _ _ _ t
  case case8 kind | case11 kind => exact close_list_answered _ _ _ _ _ _ kind
  case case9 | case10 => exact read_item_answered _ _ _ _ _ t
  case case12 => rfl

/-- A token that is taken is warned of if and only if its spelling is old, and one that is not taken
breaks a rule of the grammar. -/
theorem read_answered (stage : Stage) (t : Token) : t.Answered (stage.read t) := by
  fun_cases read stage t
  case case1 kind old | case2 kind old =>
    rw [Token.Answered, Progress.old?, Token.oldSpelling?, kind]
    simp [old]
  case case3 kind => exact go_on_answered _ _ _ (Token.old_spelling_of_kind kind (by decide))
  case case5 kind _ _ | case8 kind | case11 kind =>
    exact (Token.old_spelling_of_kind kind (by decide)).symm
  case case7 | case9 => exact read_term_answered _ _ _ t
  case case10 => exact read_body_answered _ _ _ t
  all_goals rfl

end Stage

end TypeDescription
