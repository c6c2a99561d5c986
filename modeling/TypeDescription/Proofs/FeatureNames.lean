import TypeDescription.Proofs.Invariants
import TypeDescription.Proofs.Respelling

/-!
Feature names without regard to case. They are put into upper case in three places: where they are read,
where a path is written and where it is looked up. The paths along lists are in upper case already. So
it does not matter how a name is spelled in a definition, nor in a path by which it is found there.
-/

namespace TypeDescription

/-! ## Paths in text -/

theorem upper_case_append (text more : String) :
    upperCase (text ++ more) = upperCase text ++ upperCase more := by
  rw [upperCase, String.toList_append, List.flatMap_append, String.ofList_append, ← upperCase, ← upperCase]

/-- A text may be put into upper case before it is cut, since no dot comes or goes. -/
theorem of_text_eq (text : String) :
    Path.ofText text = ((upperCase text).toList.splitOn '.').map String.ofList := by
  by_cases dotted : '.' ∈ text.toList
  · obtain ⟨first, rest, shape, plain⟩ := List.eq_append_cons_of_mem dotted
    have shorter : rest.length < text.length := by
      rw [← String.length_toList, shape, List.length_append, List.length_cons]
      omega
    have parts : text = String.ofList first ++ "." ++ String.ofList rest :=
      String.toList_inj.mp (by simp [shape])
    have undotted : '.' ∉ (String.ofList first).toList := by rwa [String.toList_ofList]
    have later := of_text_eq (String.ofList rest)
    have cut : (upperCase text).toList = (upperCase (String.ofList first)).toList ++
        '.' :: (upperCase (String.ofList rest)).toList := by
      rw [parts, upper_case_append, upper_case_append, String.toList_append, String.toList_append,
        show upperCase "." = "." by decide]
      simp
    rw [cut, List.splitOn_append_cons_self_of_not_mem (undotted_upper_case undotted), List.map_cons, ← later,
      parts, of_text_dotted undotted, String.ofList_toList]
  · rw [of_text_undotted dotted, List.splitOn_eq_singleton (undotted_upper_case dotted), List.map_singleton,
      String.ofList_toList]
termination_by text.length
decreasing_by simpa using shorter

/-- Texts with the same upper case denote the same path. -/
theorem of_text_of_upper_case {p q : String} (same : upperCase p = upperCase q) :
    Path.ofText p = Path.ofText q := by
  rw [of_text_eq, of_text_eq, same]

/-! ## Names that are stored -/

/-- The name of a feature as it is stored. -/
structure IsStoredName (name : String) : Prop extends IsPathName name where
  nonempty : name ≠ ""

theorem stored_name_of_identifier {text : String} (symbol : Lexeme.IsSymbol text.toList) :
    IsStoredName (upperCase text) where
  undotted member := absurd ((is_symbol_upper_case symbol).all '.' member) (by decide)
  upper := upperCase_upperCase text
  nonempty empty := (is_symbol_upper_case symbol).nonempty (by rw [empty]; rfl)

/-- The names along lists could be read as well. -/
theorem stored_names_of_lists : NamesLists IsStoredName := by
  have each : ∀ name ∈ [listHead, listTail, diffListChain, diffListLast],
      '.' ∉ name.toList ∧ upperCase name = name ∧ name ≠ "" := by
    decide
  intro name member
  obtain ⟨undotted, upper, nonempty⟩ := each name member
  exact { undotted, upper, nonempty }

theorem stored_names_of_read {source : Source} {options : ReadOptions} {d : Definition}
    (member : d ∈ (source.read options).definitions) : d.conjunction.NamedBy IsStoredName := by
  refine named_by_iff.mpr (kept_named_by.of_read stored_names_of_lists (fun t inside kind => ?_) member)
  have admitted := scan_tokens_admitted source t inside
  rw [kind] at admitted
  exact stored_name_of_identifier admitted.1

/-- Every feature that is read is found again, however its name is spelled. -/
theorem feature_found_of_read {source : Source} {options : ReadOptions} {d : Definition}
    (member : d ∈ (source.read options).definitions) {c : Conjunction} (inside : d.conjunction.Reaches c)
    {a : Avm} (among : a ∈ c.avms) {name : String} {value : Conjunction} (held : (name, value) ∈ a.entries)
    {text : String} (spelled : upperCase text = name) : a.get? (Path.ofText text) = some value := by
  have isName : IsStoredName name := stored_names_of_read member c inside a among _ held
  have unique := (distinct_iff.mp (distinct_of_read member inside) a among).names
  rw [of_text_eq, spelled, List.splitOn_eq_singleton isName.undotted, List.map_singleton, String.ofList_toList,
    Avm.get?, lookup_of_mem unique held]
  rfl

/-- Feature names are read, stored and looked up without regard to case. If the feature names among tokens
that are all taken are spelled in another way, with the same upper case, the same is read; in every
definition that is read, at any depth, they are stored in upper case, without dots and not empty; and
texts with the same upper case denote the same path of an AVM. -/
theorem feature_names_ignore_case :
    (∀ (fault : Option Error) (tokens tokens' : List Token), Reader.Respelled .idle tokens tokens' →
      Reader.run fault .idle tokens' = Reader.run fault .idle tokens) ∧
    (∀ (source : Source) (options : ReadOptions), ∀ d ∈ (source.read options).definitions,
      d.conjunction.NamedBy IsStoredName) ∧
    ∀ p q : String, upperCase p = upperCase q → ∀ a : Avm,
      a.get? (Path.ofText p) = a.get? (Path.ofText q) ∧
      a.contains (Path.ofText p) = a.contains (Path.ofText q) ∧
      ∀ value : Conjunction, a.set (Path.ofText p) value = a.set (Path.ofText q) value := by
  refine ⟨fun fault tokens tokens' respelled => Reader.run_respelled fault respelled .idle,
    fun source options d member => stored_names_of_read member, fun p q same a => ?_⟩
  rw [of_text_of_upper_case same]
  exact ⟨rfl, rfl, fun value => rfl⟩

/-- In another spelling a name may even have another length. -/
theorem feature_names_ignore_case_of_sharp_s :
    let source := Source.ofText "a := b & [ straße.x #1, Y #1 ]."
    let tokens (first second : String) : List Token :=
      [ ⟨.identifier, "a", 1, 1⟩, ⟨.definitionOperator, ":=", 1, 1⟩, ⟨.identifier, "b", 1, 1⟩
      , ⟨.ampersand, "&", 1, 1⟩, ⟨.avmOpen, "[", 1, 1⟩, ⟨.identifier, first, 1, 1⟩, ⟨.dot, ".", 1, 1⟩
      , ⟨.identifier, "x", 1, 1⟩, ⟨.coreference, "#1", 1, 1⟩, ⟨.comma, ",", 1, 1⟩
      , ⟨.identifier, second, 1, 1⟩, ⟨.coreference, "#1", 1, 1⟩, ⟨.avmClose, "]", 1, 1⟩, ⟨.dot, ".", 1, 1⟩ ]
    source.scan.tokens = tokens "straße" "Y" ∧
      Reader.Respelled .idle (tokens "straße" "Y") (tokens "Strasse" "y") ∧
      Reader.run none .idle (tokens "Strasse" "y") = Reader.run none .idle (tokens "straße" "Y") ∧
      (∃ d ∈ (source.read .plain).definitions, d.conjunction.NamedBy IsStoredName) ∧
      upperCase "straße.x" = upperCase "STRASSE.X" ∧
      ∃ a : Avm, a.get? (Path.ofText "straße.x") = some [.named "z"] ∧
        a.get? (Path.ofText "straße.x") = a.get? (Path.ofText "STRASSE.X") := by
  intro source tokens
  obtain ⟨reading, stored, found⟩ := feature_names_ignore_case
  have respelled : Reader.Respelled .idle (tokens "straße" "Y") (tokens "Strasse" "y") := by
    repeat' first
      | exact .nil
      | refine .cons .same rfl ?_
      | refine .cons (.name rfl rfl (by decide)) rfl ?_
  have upper : upperCase "straße.x" = upperCase "STRASSE.X" := by decide
  have one : (source.read .plain).definitions.length = 1 := by decide +kernel
  obtain ⟨d, only⟩ := List.length_eq_one_iff.mp one
  have member := only ▸ List.mem_singleton_self d
  have named := stored source .plain d member
  refine ⟨by decide +kernel, respelled, reading none _ _ respelled, ⟨d, member, named⟩, upper, ?_⟩
  exact ⟨Avm.empty.set ["STRASSE", "X"] [.named "z"], rfl, (found _ _ upper _).1⟩

end TypeDescription
