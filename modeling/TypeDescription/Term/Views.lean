import TypeDescription.Term

/-!
Flat views of a conjunction. `flatFeatures` lists what the structured terms say feature by feature
and joins a feature to the next one where its value is nothing but an AVM with a single feature.
`expandedFeatures` goes all the way down and lists every term that has no features of its own.
-/

namespace TypeDescription

namespace Features

/-- The features of an AVM, in order. A value that is an AVM of one feature without a docstring is
replaced by that feature, under the longer path. -/
def collapsed : List (String × List Term) → List (Path × Conjunction)
  | [] => []
  | (name, [.avm ⟨some [inner], none⟩]) :: rest =>
    ((collapsed [inner]).map fun (path, value) => (name :: path, value)) ++ collapsed rest
  | (name, value) :: rest => ([name], value) :: collapsed rest

end Features

mutual

/-- The terms without features that a term leads to, with their paths; itself, if it has none. -/
def Term.leaves : Term → List (Path × Term)
  | .avm ⟨some (entry :: entries), _⟩ => leavesOfEntries (entry :: entries)
  | .cons ⟨⟨some (entry :: entries), _⟩, _, _, _⟩ => leavesOfEntries (entry :: entries)
  | .diff ⟨⟨some (entry :: entries), _⟩, _⟩ => leavesOfEntries (entry :: entries)
  | t => [([], t)]

/-- The terms without features that the entries of an AVM lead to. -/
def leavesOfEntries : List (String × List Term) → List (Path × Term)
  | [] => []
  | (name, value) :: rest =>
    ((leavesOfTerms value).map fun (path, t) => (name :: path, t)) ++ leavesOfEntries rest

/-- The terms without features that the terms of a conjunction lead to. -/
def leavesOfTerms : List Term → List (Path × Term)
  | [] => []
  | t :: rest => t.leaves ++ leavesOfTerms rest

end

namespace Avm

/-- The features and their values, single features joined into paths. -/
def flatFeatures (a : Avm) : List (Path × Conjunction) := Features.collapsed a.entries

/-- The terms without features inside an AVM, with their paths. -/
def expandedFeatures (a : Avm) : List (Path × Term) := leavesOfEntries a.entries

end Avm

namespace Conjunction

/-- The features of the structured terms and their values, single features joined into paths. -/
def flatFeatures (c : Conjunction) : List (Path × Conjunction) :=
  c.avms.flatMap Avm.flatFeatures

/-- The terms without features inside the structured terms, with their paths. -/
def expandedFeatures (c : Conjunction) : List (Path × Term) :=
  c.avms.flatMap Avm.expandedFeatures

end Conjunction

end TypeDescription
