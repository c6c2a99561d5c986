import TypeDescription.Term.Lists

/-!
Terms and conjunctions as they are written. A list is written by its items, which are found by
following paths, and not by the order in which its AVM happens to hold them. So that one pass over
a conjunction is enough, each conjunction is first reduced to an outline: its text, how it would
end a list, and the outlines that its features lead to. `get?_outline` says that following a path
in the outline gives the outline of what the path leads to.
-/

namespace TypeDescription

/-- A docstring before the term that it belongs to. -/
def docBefore : Option String → String
  | some doc => "\"\"\"" ++ doc ++ "\"\"\" "
  | none => ""

/-- A type-like term without its docstring. -/
def TypeForm.written (form : TypeForm) (text : String) : String :=
  match form with
  | .name => text
  | .string => "\"" ++ text ++ "\""
  | .regex => "^" ++ text ++ "$"

/-- Entries between brackets; an AVM without entries is written as if it were not null. -/
def Features.written (entries : List (String × String)) : String :=
  if entries.isEmpty then "[ ]"
  else "[ " ++ ", ".intercalate (entries.map fun (name, value) => name ++ " " ++ value) ++ " ]"

/-- Items and a tail between angle brackets. -/
def ConsList.written (isNull terminated : Bool) (items : List String) (tail : Option String) :
    String :=
  if items.isEmpty then
    if terminated || isNull then "< >" else "< ... >"
  else
    let ending :=
      if !terminated then ", ..."
      else match tail with
        | some tail => " . " ++ tail
        | none => ""
    "< " ++ ", ".intercalate items ++ ending ++ " >"

/-- Items between the brackets of a difference list. -/
def DiffList.written (length : Nat) (items : List String) : String :=
  if length = 0 then "<! !>" else "<! " ++ ", ".intercalate items ++ " !>"

/-- What writing needs to know of a conjunction: its text, how it would end a list, and what the
features of its structured terms lead to. -/
inductive Outline where
  | mk (text : String) (ending : ListEnd) (avms : List (List (String × Outline)))

namespace Outline

/-- The text of an outlined conjunction. -/
def text : Outline → String
  | mk text _ _ => text

/-- How the conjunction would end a list. -/
def ending : Outline → ListEnd
  | mk _ ending _ => ending

/-- What a path leads to. -/
def get? : Path → Outline → Option Outline
  | [], o => some o
  | name :: rest, mk _ _ avms =>
    avms.findSome? fun entries => (entries.lookup name).bind (get? rest)

/-- What a path leads to from the entries of an AVM. -/
def lookup (path : Path) (entries : List (String × Outline)) : Option Outline :=
  match path with
  | [] => none
  | name :: rest => (entries.lookup name).bind (get? rest)

/-- The texts at paths, where the paths lead to anything. -/
def texts (paths : List Path) (entries : List (String × Outline)) : List String :=
  paths.filterMap fun path => (lookup path entries).map text

/-- The outline of a conjunction, from the texts and the outlined features of its terms. -/
def ofTerms (ending : ListEnd) (terms : List (String × Option (List (String × Outline)))) :
    Outline :=
  mk (" & ".intercalate (terms.map (·.1))) ending (terms.filterMap (·.2))

end Outline

mutual

/-- The text of a term, and the outlines that its features lead to, if it is structured. -/
def Term.outline : Term → String × Option (List (String × Outline))
  | .type form text doc => (docBefore doc ++ form.written text, none)
  | .coreference tag doc => (docBefore doc ++ "#" ++ tag.getD "", none)
  | .avm ⟨features, doc⟩ =>
    let entries := outlineMap features
    (docBefore doc ++ Features.written (entries.map fun (name, value) => (name, value.text)),
      some entries)
  | .cons ⟨⟨features, doc⟩, lastPath, length, terminated⟩ =>
    let entries := outlineMap features
    let items := Outline.texts ((List.range length).map itemPath) entries
    let tail :=
      if length = 0 then none
      else
        ((Outline.lookup (Path.ofText lastPath) entries).filter fun o => o.ending ≠ .closed).map
          Outline.text
    (docBefore doc ++ ConsList.written features.isNone terminated items tail, some entries)
  | .diff ⟨⟨features, doc⟩, length⟩ =>
    let entries := outlineMap features
    let items := Outline.texts
      ((List.range length).map fun index => diffListChain :: itemPath index) entries
    (docBefore doc ++ DiffList.written length items, some entries)

/-- The outlines of the entries of an AVM; a null AVM has none. -/
def outlineMap : Option (List (String × List Term)) → List (String × Outline)
  | some entries => outlineEntries entries
  | none => []

/-- The outlines of entries. -/
def outlineEntries : List (String × List Term) → List (String × Outline)
  | [] => []
  | (name, value) :: rest =>
    (name, Outline.ofTerms (ListEnd.of value) (outlineTerms value)) :: outlineEntries rest

/-- The texts and outlined features of the terms of a conjunction. -/
def outlineTerms : List Term → List (String × Option (List (String × Outline)))
  | [] => []
  | t :: rest => t.outline :: outlineTerms rest

end

theorem lookup_outlineEntries (name : String) (entries : Features) :
    (outlineEntries entries).lookup name =
      (entries.lookup name).map fun value =>
        Outline.ofTerms (ListEnd.of value) (outlineTerms value) := by
  induction entries with
  | nil => rfl
  | cons entry rest ih =>
    obtain ⟨key, value⟩ := entry
    simp only [outlineEntries, List.lookup_cons]
    split <;> simp_all

theorem filterMap_outlineTerms (c : Conjunction) :
    (outlineTerms c).filterMap (·.2) = c.avms.map fun a => outlineEntries a.entries := by
  induction c with
  | nil => rfl
  | cons t rest ih =>
    rw [outlineTerms, List.filterMap_cons, ih, Conjunction.avms, Conjunction.avms,
      List.filterMap_cons]
    rcases t with _ | _ | ⟨⟨_ | _, _⟩⟩ | ⟨⟨_ | _, _⟩, _, _, _⟩ | ⟨⟨_ | _, _⟩, _⟩ <;> rfl

/-- A term as it is written. -/
def Term.text (t : Term) : String := t.outline.1

namespace Conjunction

/-- What writing needs to know of a conjunction. -/
def outline (c : Conjunction) : Outline := Outline.ofTerms (ListEnd.of c) (outlineTerms c)

/-- A conjunction as it is written: its terms, joined by ampersands. -/
def text (c : Conjunction) : String := c.outline.text

/-- The outline of a conjunction holds the outlines of all values inside it, at their paths. -/
theorem get?_outline (path : Path) (c : Conjunction) :
    Outline.get? path c.outline = (c.get? path).map outline := by
  induction path generalizing c with
  | nil => rfl
  | cons name rest ih =>
    rw [outline, Outline.ofTerms, Outline.get?, filterMap_outlineTerms, List.findSome?_map,
      Conjunction.get?]
    induction c.avms with
    | nil => rfl
    | cons a avms ih' =>
      simp only [List.findSome?_cons, Function.comp, lookup_outlineEntries]
      cases a.entries.lookup name with
      | none => exact ih'
      | some value =>
        simp only [Option.map_some, Option.bind_some]
        rw [← outline, ih value]
        cases Conjunction.get? value rest with
        | none => exact ih'
        | some _ => rfl

end Conjunction

/-- An AVM as it is written, without its docstring. -/
def Avm.text (a : Avm) : String := Term.text (.avm { a with doc := none })

/-- A cons-list as it is written, without its docstring. -/
def ConsList.text (l : ConsList) : String :=
  Term.text (.cons { l with avm := { l.avm with doc := none } })

/-- A difference list as it is written, without its docstring. -/
def DiffList.text (l : DiffList) : String :=
  Term.text (.diff { l with avm := { l.avm with doc := none } })

end TypeDescription
