import TypeDescription.Proofs.Answers
import TypeDescription.Proofs.Derivations

/-!
Where a definition ends. The reader is inside a definition until a dot completes it; what the
tokens up to this dot spell, comments apart, is the declaration that the reader has put together.
From there it goes on as if nothing had been read. If no dot completes the definition, the tokens
are refused.
-/

namespace TypeDescription

open Spelling

/-- The tokens that are no comments, without their places. -/
def significant (tokens : List Token) : Spelling :=
  (tokens.filter fun t => !t.isComment).map Token.bare

@[simp] theorem significant_append (first second : List Token) :
    significant (first ++ second) = significant first ++ significant second := by
  simp [significant]

theorem significant_cons_of_comment {t : Token} (comment : t.isComment = true) (rest : List Token) :
    significant (t :: rest) = significant rest := by
  simp [significant, comment]

theorem significant_cons {t : Token} (plain : t.isComment = false) (rest : List Token) :
    significant (t :: rest) = t.bare :: significant rest := by
  simp [significant, plain]

/-- A definition that a dot completes: what it is made of, its tokens before the dot, and what
follows the dot. -/
structure Completion where
  head : Head
  body : Body
  inner : List Token
  dot : Token
  rest : List Token

namespace Completion

/-- A token before those of a definition. -/
def after (t : Token) (c : Completion) : Completion := { c with inner := t :: c.inner }

end Completion

namespace Stage

/-- The definition that is completed from here, if one is. -/
def complete? : Stage → List Token → Option Completion
  | _, [] => none
  | stage, t :: rest =>
    if t.isComment then (complete? stage rest).map (·.after t)
    else
      match stage.read t with
      | .ok (.next stage _) => (complete? stage rest).map (·.after t)
      | .ok (.complete head content) => some { head, body := content, inner := [], dot := t, rest }
      | .error _ => none

/-- A completed definition is spelled by the tokens it was read from, and they end with a dot. -/
theorem complete_sound {stage : Stage} {tokens : List Token} {c : Completion}
    (standard : ∀ t ∈ tokens, t.Standard) (completed : stage.complete? tokens = some c) :
    tokens = c.inner ++ c.dot :: c.rest ∧ c.dot.kind = .dot ∧
      stage.consumed ++ significant (c.inner ++ [c.dot]) =
        c.head.spelling ++ c.body.spelling ++ symbol .dot := by
  fun_induction complete? stage tokens generalizing c with
  | case1 => cases completed
  | case2 stage t rest comment ih =>
    obtain ⟨later, found, rfl⟩ := Option.map_eq_some_iff.mp completed
    obtain ⟨shape, dot, spelled⟩ := ih (fun u member => standard u (List.mem_cons_of_mem _ member))
      found
    refine ⟨by rw [shape]; rfl, dot, ?_⟩
    rw [Completion.after, List.cons_append, significant_cons_of_comment comment]
    exact spelled
  | case3 stage t rest plain next old taken ih =>
    have plain : t.isComment = false := by simpa using plain
    obtain ⟨later, found, rfl⟩ := Option.map_eq_some_iff.mp completed
    obtain ⟨shape, dot, spelled⟩ := ih (fun u member => standard u (List.mem_cons_of_mem _ member))
      found
    have step := read_consumed (standard t (List.mem_cons_self ..)) taken
    simp only [Progress.consumed] at step
    refine ⟨by rw [shape]; rfl, dot, ?_⟩
    rw [Completion.after, List.cons_append, significant_cons plain, List.append_cons, ← step]
    exact spelled
  | case4 stage t rest plain head body taken =>
    have plain : t.isComment = false := by simpa using plain
    obtain ⟨dot, spelled⟩ := read_complete (standard t (List.mem_cons_self ..)) taken
    cases completed
    refine ⟨rfl, dot, ?_⟩
    rw [spelled, List.nil_append, significant_cons plain]
    rfl
  | case5 => cases completed

/-- Reading looks at the kind and the text of a token only. -/
private theorem read_bare (stage : Stage) (t : Token) :
    stage.read t = stage.read { kind := t.bare.1, text := t.bare.2, line := 0, lastLine := 0 } := rfl

private theorem read_of_take {stage next : Stage} {t : Token} (taken : stage.take t.bare = some next) :
    ∃ old, stage.read t = .ok (.next next old) := by
  rw [take, ← read_bare] at taken
  split at taken
  · next old went =>
    cases taken
    exact ⟨old, went⟩
  · cases taken

/-- Tokens that lead to a place where a token completes the definition are completed by it. -/
theorem complete_of_takeAll {stage last : Stage} {inner : List Token} {dot : Token} {head : Head}
    {body : Body} (taken : stage.takeAll (significant inner) = some last)
    (plain : dot.isComment = false) (completes : last.read dot = .ok (.complete head body))
    (rest : List Token) :
    stage.complete? (inner ++ dot :: rest) = some { head, body, inner, dot, rest } := by
  induction inner generalizing stage with
  | nil =>
    cases taken
    rw [List.nil_append, complete?, plain, completes]
    rfl
  | cons t inner ih =>
    rw [List.cons_append, complete?]
    by_cases comment : t.isComment = true
    · rw [significant_cons_of_comment comment] at taken
      rw [if_pos comment, ih taken]
      rfl
    · have plain' : t.isComment = false := by simpa using comment
      rw [significant_cons plain', takeAll_cons] at taken
      obtain ⟨next, first, later⟩ := Option.bind_eq_some_iff.mp taken
      obtain ⟨old, went⟩ := read_of_take first
      rw [if_neg comment, went]
      simp only
      rw [ih later]
      rfl

end Stage

/-! ## What a reader makes of it -/

namespace Reader

variable {stage : Stage} {tokens : List Token}

/-- The warnings inside a definition come before what follows it; nothing else of the definition is
left but its event. -/
theorem run_of_complete (fault : Option Error) (identifier : String) (line : Nat) {c : Completion}
    (completed : stage.complete? tokens = some c) :
    run fault (.within identifier line stage) tokens =
      match Declaration.event { identifier, head := c.head, body := c.body } with
      | .ok event =>
        { events := event :: (run fault .idle c.rest).events
          warnings := (c.inner ++ [c.dot]).filterMap (Token.warning? (some identifier)) ++
            (run fault .idle c.rest).warnings
          error := (run fault .idle c.rest).error }
      | .error cause =>
        { events := [], warnings := (c.inner ++ [c.dot]).filterMap (Token.warning? (some identifier))
          error := some ((Error.onLine cause c.dot.line).withIdentifier identifier) } := by
  fun_induction Stage.complete? stage tokens generalizing c line with
  | case1 => cases completed
  | case2 stage t rest comment ih =>
    obtain ⟨later, found, rfl⟩ := Option.map_eq_some_iff.mp completed
    have quiet := Token.warning_of_plain (some identifier) (Token.old_spelling_of_comment comment)
    rw [run, read, if_pos comment, Completion.after, List.cons_append, List.filterMap_cons, quiet]
    exact ih line found
  | case3 stage t rest plain next old taken ih =>
    obtain ⟨later, found, rfl⟩ := Option.map_eq_some_iff.mp completed
    have told : old = t.oldSpelling? := by
      have answered := stage.read_answered t
      rwa [taken] at answered
    have step : read (.within identifier line stage) t =
        .ok { reader := .within identifier t.line next, event := none
              warning := t.warning? (some identifier) } := by
      rw [read, if_neg plain, readWithin, taken, told]
      rfl
    rw [run, step]
    simp only [ih t.line found, Completion.after, List.cons_append, List.filterMap_cons]
    cases Declaration.event { identifier, head := later.head, body := later.body } <;>
      cases t.warning? (some identifier) <;> rfl
  | case4 stage t rest plain head body taken =>
    cases completed
    have quiet : t.warning? (some identifier) = none := by
      have answered := stage.read_answered t
      rw [taken] at answered
      exact Token.warning_of_plain _ answered.symm
    rw [run, read, if_neg plain, readWithin, taken]
    simp only [bind, Except.bind, List.nil_append, List.filterMap_cons, quiet]
    cases Declaration.event { identifier, head, body } <;> rfl
  | case5 => cases completed

/-- A definition that is never completed is refused. -/
theorem run_of_incomplete (fault : Option Error) (identifier : String) (line : Nat)
    (unfinished : stage.complete? tokens = none) :
    (run fault (.within identifier line stage) tokens).events = [] ∧
      (run fault (.within identifier line stage) tokens).error ≠ none := by
  fun_induction Stage.complete? stage tokens generalizing line with
  | case1 stage => cases fault <;> simp [run, endFault]
  | case2 stage t rest comment ih =>
    rw [run, read, if_pos comment]
    exact ih line (Option.map_eq_none_iff.mp unfinished)
  | case3 stage t rest plain next old taken ih =>
    rw [run, read, if_neg plain, readWithin, taken]
    exact ih t.line (Option.map_eq_none_iff.mp unfinished)
  | case4 => cases unfinished
  | case5 stage t rest plain cause taken =>
    rw [run, read, if_neg plain, readWithin, taken]
    exact ⟨rfl, Option.some_ne_none _⟩

end Reader

end TypeDescription
