import TypeDescription.Term

/-!
When two terms count as the same. Everything matters, docstrings and the order of terms included,
except the order of the features in an AVM: two AVMs are the same if they have equally many
features and every feature of the one has the same value in the other.
-/

namespace TypeDescription

mutual

/-- Are two terms the same? -/
def Term.same : Term → Term → Bool
  | .type form text doc, .type form' text' doc' => form = form' && text = text' && doc = doc'
  | .coreference tag doc, .coreference tag' doc' => tag = tag' && doc = doc'
  | .avm a, .avm b => a.same b
  | .cons ⟨a, lastPath, length, terminated⟩, .cons ⟨b, lastPath', length', terminated'⟩ =>
    a.same b && lastPath = lastPath' && length = length' && terminated = terminated'
  | .diff ⟨a, length⟩, .diff ⟨b, length'⟩ => a.same b && length = length'
  | _, _ => false

/-- Are two AVMs the same, up to the order of their features? -/
def Avm.same : Avm → Avm → Bool
  | ⟨some entries, doc⟩, ⟨some entries', doc'⟩ =>
    doc = doc' && entries.length = entries'.length && sameEntries entries entries'
  | ⟨none, doc⟩, ⟨none, doc'⟩ => doc = doc'
  | _, _ => false

/-- Has every one of these entries the same value in an AVM with those entries? -/
def sameEntries : List (String × List Term) → List (String × List Term) → Bool
  | [], _ => true
  | (name, value) :: rest, entries =>
    (match entries.lookup name with
      | some value' => sameTerms value value'
      | none => false) && sameEntries rest entries

/-- Are the terms of two conjunctions the same, one by one? -/
def sameTerms : List Term → List Term → Bool
  | [], [] => true
  | t :: rest, t' :: rest' => t.same t' && sameTerms rest rest'
  | _, _ => false

end

/-- Are two conjunctions the same? -/
def Conjunction.same (c d : Conjunction) : Bool := sameTerms c d

end TypeDescription
