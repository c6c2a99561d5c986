import TypeDescription.Series
import TypeDescription.Token
import TypeDescription.Definition

/-!
Definitions as they are written: the derivations of the grammar. A phrase is one written term. It
keeps what the value of the term forgets: quoted symbols, the spelling of feature names, features
that are given twice. No phrase is without a spelling, and `Declaration.spelling` is the sequence
of tokens that it is read from, comments apart.
-/

namespace TypeDescription

/-- The kinds of term that are a single token. -/
inductive AtomKind where
  | name
  | quoted
  | string
  | regex
  | coreference
  deriving DecidableEq, Repr

namespace AtomKind

/-- The kind of the token of an atom. -/
def tokenKind : AtomKind → TokenKind
  | name => .identifier
  | quoted => .quotedSymbol
  | string => .string
  | regex => .regex
  | coreference => .coreference

/-- The atom that a kind of token makes. -/
def ofTokenKind? : TokenKind → Option AtomKind
  | .identifier => some name
  | .quotedSymbol => some quoted
  | .string => some string
  | .regex => some regex
  | .coreference => some coreference
  | _ => none

theorem ofTokenKind?_eq_some_iff {kind : TokenKind} {atom : AtomKind} :
    ofTokenKind? kind = some atom ↔ kind = atom.tokenKind := by
  cases kind <;> cases atom <;> simp [ofTokenKind?, tokenKind]

end AtomKind

mutual

/-- A written term, with the docstring before it. -/
inductive Phrase where
  | atom (kind : AtomKind) (text : String) (doc : Option String)
  /-- Features between brackets: a path of names and its value, for each. -/
  | avm (features : List (Series String × Series Phrase)) (doc : Option String)
  | cons (items : List (Series Phrase)) (ending : Ending) (doc : Option String)
  | diff (items : List (Series Phrase)) (doc : Option String)

/-- How a written list ends after its items. -/
inductive Ending where
  | closed
  | ellipsis
  /-- A last item, a dot and the tail after it. -/
  | dotted (last tail : Series Phrase)

end

/-- What stands between the operator of a definition and its final dot. -/
inductive Body where
  | docOnly (doc : String)
  | joined (terms : Series Phrase) (doc : Option String)

/-- The operator of a definition and what belongs to it. -/
inductive Head where
  | addendum
  /-- The operator, in its old spelling or not, and the affixes of an inflectional rule. -/
  | definition (old : Bool) (affixes : Option (AffixSide × List String))

/-- A written definition. -/
structure Declaration where
  identifier : String
  head : Head
  body : Body

end TypeDescription
