import TypeDescription.Proofs.Grammar

/-!
How far tokens can be read. Items that mean something are taken off the front of the tokens, one
after the other, as long as there is one; this can be done in one way only. If anything is left
over, it begins with a definition that goes wrong or with a token that starts no item, and the
reader yields nothing of it but an error.
-/

namespace TypeDescription

/-- The items that can be taken off the front of the tokens, and the tokens that are left over. -/
structure Itemizes (tokens : List Token) (items : List Item) (rest : List Token) : Prop where
  written : items.flatMap Item.tokens ++ rest = tokens
  valid : ∀ item ∈ items, item.Grammatical ∧ item.Meaningful
  stuck : ∀ (item : Item) (later : List Token), item.Grammatical → item.Meaningful → rest ≠ item.tokens ++ later

section

variable {tokens rest : List Token} {items : List Item}

/-- However the tokens end, some items can be taken off and then none. -/
theorem exists_itemizes (standard : ∀ t ∈ tokens, t.Standard) :
    ∃ items rest, Itemizes tokens items rest := by
  obtain ⟨items, rest, written, valid, events, -⟩ := exists_items none standard
  refine ⟨items, rest, written, valid, fun item later grammatical meaningful more => ?_⟩
  -- One more item would be one more event.
  have longer : ∀ item' ∈ items ++ [item], item'.Grammatical ∧ item'.Meaningful :=
    List.forall_mem_append.mpr ⟨valid, List.forall_mem_singleton.mpr ⟨grammatical, meaningful⟩⟩
  obtain ⟨events', same, read⟩ := run_of_items none longer later
  have split : (items ++ [item]).flatMap Item.tokens ++ later = tokens := by
    rw [List.flatMap_append, List.flatMap_singleton, List.append_assoc, ← more, written]
  rw [split] at read
  have count := congrArg List.length events
  have count' := congrArg List.length same
  rw [read, List.map_append] at count
  simp only [List.length_append, List.length_map, List.length_singleton] at count count'
  omega

/-- There is one way only to take items off. -/
theorem Itemizes.unique {items' : List Item} {rest' : List Token} (first : Itemizes tokens items rest)
    (second : Itemizes tokens items' rest') : items = items' ∧ rest = rest' := by
  induction items generalizing items' tokens with
  | nil =>
    obtain rfl := first.written
    cases items' with
    | nil => exact ⟨rfl, second.written.symm⟩
    | cons item' more' =>
      obtain ⟨grammatical, meaningful⟩ := second.valid item' (List.mem_cons_self ..)
      have shape := second.written
      rw [List.flatMap_cons, List.append_assoc] at shape
      exact absurd shape.symm (first.stuck item' _ grammatical meaningful)
  | cons item more ih =>
    obtain ⟨⟨grammatical, meaningful⟩, later⟩ := List.forall_mem_cons.mp first.valid
    have shape := first.written
    rw [List.flatMap_cons, List.append_assoc] at shape
    have found := first_item_complete grammatical (more.flatMap Item.tokens ++ rest)
    cases items' with
    | nil =>
      obtain rfl := second.written
      exact absurd shape.symm (second.stuck item _ grammatical meaningful)
    | cons item' more' =>
      obtain ⟨⟨grammatical', -⟩, later'⟩ := List.forall_mem_cons.mp second.valid
      have shape' := second.written
      rw [List.flatMap_cons, List.append_assoc] at shape'
      rw [shape, ← shape', first_item_complete grammatical' _] at found
      obtain ⟨rfl, remains⟩ := Prod.mk.inj (Option.some.inj found)
      obtain ⟨rfl, rfl⟩ := ih ⟨rfl, later, first.stuck⟩ ⟨remains, later', second.stuck⟩
      exact ⟨rfl, rfl⟩

/-- What is left over is read without an event, and without an error only if it is nothing. -/
theorem Itemizes.run_rest (fault : Option Error) (itemizes : Itemizes tokens items rest)
    (standard : ∀ t ∈ tokens, t.Standard) :
    (Reader.run fault .idle rest).events = [] ∧
      ((Reader.run fault .idle rest).error = none → rest = []) := by
  have inside : ∀ t ∈ rest, t.Standard := fun t member =>
    standard t (itemizes.written ▸ List.mem_append_right _ member)
  obtain ⟨more, left, written, valid, events, complete⟩ := exists_items fault inside
  cases more with
  | nil =>
    obtain rfl : left = rest := written
    exact ⟨List.map_eq_nil_iff.mp events, complete⟩
  | cons item more =>
    obtain ⟨grammatical, meaningful⟩ := valid item (List.mem_cons_self ..)
    rw [List.flatMap_cons, List.append_assoc] at written
    exact absurd written.symm (itemizes.stuck item _ grammatical meaningful)

/-- Every item is one event, the warnings about the items come first, and what is left over decides
about the error. -/
theorem Itemizes.run (fault : Option Error) (itemizes : Itemizes tokens items rest)
    (standard : ∀ t ∈ tokens, t.Standard) :
    (Reader.run fault .idle tokens).events.map .ok = items.map Item.event ∧
      (Reader.run fault .idle tokens).warnings =
        items.flatMap Item.warnings ++ (Reader.run fault .idle rest).warnings ∧
      (Reader.run fault .idle tokens).error = (Reader.run fault .idle rest).error := by
  obtain ⟨events, same, read⟩ := run_of_items fault itemizes.valid rest
  rw [itemizes.written] at read
  rw [read, (itemizes.run_rest fault standard).1, List.append_nil]
  exact ⟨same, rfl, rfl⟩

/-- What is left over begins neither with a comment nor with a letter set. -/
theorem Itemizes.head_rest {t : Token} {later : List Token} (itemizes : Itemizes tokens items (t :: later)) :
    t.isComment = false ∧ t.kind ≠ .letterSet := by
  constructor
  · refine Bool.eq_false_iff.mpr fun comment => ?_
    exact itemizes.stuck (.comment t) later comment trivial rfl
  · intro kind
    exact itemizes.stuck (.letterSet t) later kind trivial rfl

end

end TypeDescription
