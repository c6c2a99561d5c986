import TypeDescription.Term

/-!
Normalising a conjunction: its plain AVMs are merged into the first of them, and so are those of
every conjunction inside it. Null AVMs and lists stay where they are; the values inside a list are
normalised too. Merging conjoins the values of a feature that both AVMs have, and never makes a
conjunction deeper, so the depth of a conjunction bounds how far the merging has to go.
-/

namespace TypeDescription

mutual

/-- How many AVMs are nested in a term at most. -/
def Term.depth : Term → Nat
  | .avm ⟨features, _⟩ => depthOfMap features + 1
  | .cons ⟨⟨features, _⟩, _, _, _⟩ => depthOfMap features + 1
  | .diff ⟨⟨features, _⟩, _⟩ => depthOfMap features + 1
  | .type .. => 0
  | .coreference .. => 0

/-- How many AVMs are nested in the values of an AVM at most. -/
def depthOfMap : Option (List (String × List Term)) → Nat
  | some entries => depthOfEntries entries
  | none => 0

/-- How many AVMs are nested in the values of entries at most. -/
def depthOfEntries : List (String × List Term) → Nat
  | [] => 0
  | (_, value) :: rest => max (depthOfTerms value) (depthOfEntries rest)

/-- How many AVMs are nested in terms at most. -/
def depthOfTerms : List Term → Nat
  | [] => 0
  | t :: rest => max t.depth (depthOfTerms rest)

end

namespace Avm

/-- Conjoins the features of another AVM with this one. The first docstring is kept. -/
def merge (a b : Avm) : Avm :=
  { features := some (b.entries.foldl
      (fun (entries : Features) (name, value) => entries.update name (· ++ value)) a.entries)
    doc := a.doc.or b.doc }

end Avm

namespace Term

/-- The AVM of a plain AVM term that is not null: the terms that normalising merges. -/
def mergeable? : Term → Option Avm
  | .avm a => if a.isNull then none else some a
  | _ => none

end Term

namespace Conjunction

/-- Merges the plain AVMs of a conjunction into the first of them. -/
def mergeAvms : Conjunction → Conjunction
  | [] => []
  | t :: rest =>
    match t.mergeable? with
    | some a =>
      .avm ((rest.filterMap (·.mergeable?)).foldl Avm.merge a) ::
        rest.filter (fun t => t.mergeable?.isNone)
    | none => t :: mergeAvms rest

/-- Normalises a conjunction and the values inside it, down to a depth. -/
def normalizeTo : Nat → Conjunction → Conjunction
  | 0, c => c
  | depth + 1, c => (mergeAvms c).map fun t => t.mapValues (normalizeTo depth)

/-- Normalises a conjunction. -/
def normalize (c : Conjunction) : Conjunction := normalizeTo (depthOfTerms c) c

end Conjunction

/-- Normalises every value of an AVM. -/
def Avm.normalize (a : Avm) : Avm := a.mapValues Conjunction.normalize

end TypeDescription
