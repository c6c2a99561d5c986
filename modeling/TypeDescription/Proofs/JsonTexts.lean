import TypeDescription.Json.Reader
import TypeDescription.Proofs.JsonLexemes

/-!
The text of a JSON value is read as the value. The tokens of a value lead the machine from a place
where a value is due to the place after it with the value complete, whatever is open around it: this
is proved by induction on the value for all stacks of frames at once.
-/

namespace TypeDescription.Json

/-- Elements that are read back one by one are read back together. -/
theorem mapM_map_of_inverse {f : α → β} {g : β → Option α} {elements : List α}
    (inverse : ∀ a ∈ elements, g (f a) = some a) : (elements.map f).mapM g = some elements := by
  induction elements with
  | nil => rfl
  | cons a rest ih =>
    obtain ⟨first, later⟩ := List.forall_mem_cons.mp inverse
    rw [List.map_cons, List.mapM_cons, first, ih later]
    rfl

namespace State

/-- The machine after some tokens. -/
def readAll (state : State) (lexemes : List Lexeme) : Option State := lexemes.foldlM read state

theorem read_all_append {state middle : State} {first : List Lexeme} (second : List Lexeme)
    (taken : state.readAll first = some middle) :
    state.readAll (first ++ second) = middle.readAll second := by
  rw [readAll, List.foldlM_append]
  rw [readAll] at taken
  rw [taken]
  rfl

theorem read_all_cons {state middle : State} {lexeme : Lexeme} (rest : List Lexeme)
    (taken : state.read lexeme = some middle) : state.readAll (lexeme :: rest) = middle.readAll rest := by
  rw [readAll, List.foldlM_cons, taken]
  rfl

end State

open State

/-- The tokens lead from where a value is due to where this value is complete. -/
def Reads (tokens : List Lexeme) (value : Json) : Prop :=
  ∀ frames, State.readAll { frames, point := .value } tokens = some { frames, point := .complete value }

/-- Joined pieces begin as the first of them does. -/
private theorem joined_tokens_start {f : α → List Lexeme} {a : α} {first : Lexeme} {more : List Lexeme}
    (starts : f a = first :: more) (rest : List α) :
    ∃ later, joinedTokens ((a :: rest).map f) = first :: later := by
  cases rest with
  | nil => exact ⟨more, by rw [joined_tokens_singleton, starts]⟩
  | cons b rest => exact ⟨_, by rw [joined_tokens_cons, starts, List.cons_append]⟩

/-- A value does not begin with the end of an array, so where the first item of an array is due, it
is read as an item. -/
private theorem read_first_item (frames : List Frame) (item : Json) (rest : List Json)
    (more : List Lexeme) :
    State.readAll { frames, point := .firstItem } (joinedTokens ((item :: rest).map tokens) ++ more) =
      State.readAll { frames := .item [] :: frames, point := .value }
        (joinedTokens ((item :: rest).map tokens) ++ more) := by
  have starts : ∃ first later, item.tokens = first :: later ∧ first ≠ .arrayClose := by
    cases item <;> exact ⟨_, _, rfl, fun same => nomatch same⟩
  obtain ⟨first, later, starts, other⟩ := starts
  obtain ⟨others, shape⟩ := joined_tokens_start starts rest
  have same : State.read { frames, point := .firstItem } first =
      State.read { frames := .item [] :: frames, point := .value } first := by
    cases first <;> first | rfl | exact absurd rfl other
  rw [shape, List.cons_append, readAll, readAll, List.foldlM_cons, List.foldlM_cons, same]

private theorem read_items {items : List Json} (nonempty : items ≠ [])
    (each : ∀ item ∈ items, Reads item.tokens item) (frames : List Frame) (done : List Json) :
    State.readAll { frames := .item done :: frames, point := .value }
        (joinedTokens (items.map tokens) ++ [.arrayClose]) =
      some { frames, point := .complete (.array (done ++ items)) } := by
  induction items generalizing done with
  | nil => exact absurd rfl nonempty
  | cons item rest ih =>
    obtain ⟨first, later⟩ := List.forall_mem_cons.mp each
    cases rest with
    | nil =>
      rw [joined_tokens_singleton, read_all_append _ (first _)]
      rfl
    | cons next rest =>
      have comma : State.read { frames := .item done :: frames, point := .complete item } .comma =
          some { frames := .item (done ++ [item]) :: frames, point := .value } := rfl
      rw [joined_tokens_cons, List.append_assoc, read_all_append _ (first _), List.cons_append,
        read_all_cons _ comma, ih (List.cons_ne_nil _ _) later, List.append_assoc, List.singleton_append]

/-- Members as the machine holds them: their names are values like any others. -/
private def held (members : List (String × Json)) : List (Json × Json) :=
  members.map fun entry => (string entry.1, entry.2)

private theorem held_append (done : List (String × Json)) (name : String) (value : Json) :
    held done ++ [(string name, value)] = held (done ++ [(name, value)]) := by
  rw [held, held, List.map_append]
  rfl

/-- Names that are texts make an object. -/
private theorem of_members_held (members : List (String × Json)) :
    ofMembers (held members) = object members := by
  rw [ofMembers, held, mapM_map_of_inverse]
  exact fun _ _ => rfl

private theorem read_members {members : List (String × Json)} (nonempty : members ≠ [])
    (each : ∀ entry ∈ members, Reads entry.2.tokens entry.2) (frames : List Frame)
    (done : List (String × Json)) :
    State.readAll { frames, point := .name (held done) }
        (joinedTokens (members.map tokensOfMember) ++ [.objectClose]) =
      some { frames, point := .complete (.object (done ++ members)) } := by
  induction members generalizing done with
  | nil => exact absurd rfl nonempty
  | cons entry rest ih =>
    obtain ⟨name, value⟩ := entry
    obtain ⟨first, later⟩ := List.forall_mem_cons.mp each
    let after : State :=
      { frames := .member (held done) (string name) :: frames, point := .complete value }
    -- The name and the colon lead to the place of the value.
    have named (more : List Lexeme) :
        State.readAll { frames, point := .name (held done) } (tokensOfMember (name, value) ++ more) =
          after.readAll more :=
      read_all_append more (first _)
    cases rest with
    | nil =>
      rw [joined_tokens_singleton, named, ← of_members_held, ← held_append]
      rfl
    | cons next rest =>
      have comma : after.read .comma =
          some { frames, point := .name (held (done ++ [(name, value)])) } := by
        rw [← held_append]
        rfl
      rw [joined_tokens_cons, List.append_assoc, named, List.cons_append, read_all_cons _ comma,
        ih (List.cons_ne_nil _ _) later, List.append_assoc, List.singleton_append]

/-- The tokens of a value are read as the value. -/
theorem reads_tokens {j : Json} (plain : j.Plain) : Reads j.tokens j := by
  induction plain with
  | null | bool | count | string => exact fun _ => rfl
  | @array items inside ih =>
    intro frames
    rw [tokens, tokens_of_items]
    have opened : State.read { frames, point := .value } .arrayOpen =
        some { frames, point := .firstItem } := rfl
    rw [read_all_cons _ opened]
    cases items with
    | nil => rfl
    | cons item rest => rw [read_first_item, read_items (List.cons_ne_nil _ _) ih, List.nil_append]
  | @object members inside ih =>
    intro frames
    rw [tokens, tokens_of_members]
    have opened : State.read { frames, point := .value } .objectOpen =
        some { frames, point := .firstMember } := rfl
    rw [read_all_cons _ opened]
    cases members with
    | nil => rfl
    | cons entry rest =>
      obtain ⟨others, shape⟩ := joined_tokens_start (f := tokensOfMember) (a := entry) rfl rest
      have read := read_members (List.cons_ne_nil entry rest) ih frames []
      rw [List.nil_append, shape] at read
      rw [shape]
      exact read

/-- The text of a value is read as the value. -/
theorem of_text_text {j : Json} (plain : j.Plain) : ofText? j.text = some j := by
  have reads : State.start.readAll j.tokens = some { frames := [], point := .complete j } :=
    reads_tokens plain []
  rw [ofText?, text, String.toList_ofList, lexemes_written plain]
  rw [readAll] at reads
  simp only [bind, Option.bind_some, reads]
  rfl

end TypeDescription.Json
