import TypeDescription.Phrase

/-!
How a derivation is spelled: the sequence of tokens that it is read from, comments apart. A token
is given by its kind and its text; where it stands makes no difference. Alternatives of the grammar
that only differ in what stands between two delimiters are spelled by one rule: the parts, with
commas between them.
-/

namespace TypeDescription

/-- Tokens without their places. -/
abbrev Spelling := List (TokenKind × String)

namespace Spelling

/-- A token that is always written in the same way. -/
def symbol (kind : TokenKind) : Spelling := [(kind, kind.description)]

/-- Parts, with the same token between any two of them. -/
def joined (separator : TokenKind) (parts : List Spelling) : Spelling :=
  (symbol separator).intercalate parts

/-- A docstring, if there is one. -/
def ofDoc (doc : Option String) : Spelling :=
  doc.toList.map fun text => (.docstring, text)

/-- Feature names, with dots between them. -/
def ofNames (names : Series String) : Spelling :=
  joined .dot (names.toList.map fun name => [(.identifier, name)])

end Spelling

open Spelling

mutual

/-- The spelling of a written term. -/
def Phrase.spelling : Phrase → Spelling
  | .atom kind text doc => ofDoc doc ++ [(kind.tokenKind, text)]
  | .avm features doc =>
    ofDoc doc ++ symbol .avmOpen ++ joined .comma (spellingsOfFeatures features) ++
      symbol .avmClose
  | .cons items ending doc =>
    ofDoc doc ++ symbol .consListOpen ++
      joined .comma (spellingsOfItems items ++ ending.spellings) ++ symbol .consListClose
  | .diff items doc =>
    ofDoc doc ++ symbol .diffListOpen ++ joined .comma (spellingsOfItems items) ++
      symbol .diffListClose

/-- What an ending adds to the parts of a list. -/
def Ending.spellings : Ending → List Spelling
  | .closed => []
  | .ellipsis => [symbol .ellipsis]
  | .dotted last tail => [spellingOfSeries last ++ symbol .dot ++ spellingOfSeries tail]

/-- The spelling of joined terms. -/
def spellingOfSeries : Series Phrase → Spelling
  | ⟨first, rest⟩ => joined .ampersand (first.spelling :: spellingsOfTerms rest)

/-- The spellings of terms, one by one. -/
def spellingsOfTerms : List Phrase → List Spelling
  | [] => []
  | p :: rest => p.spelling :: spellingsOfTerms rest

/-- The spellings of features, one by one. -/
def spellingsOfFeatures : List (Series String × Series Phrase) → List Spelling
  | [] => []
  | (names, value) :: rest => (ofNames names ++ spellingOfSeries value) :: spellingsOfFeatures rest

/-- The spellings of items, one by one. -/
def spellingsOfItems : List (Series Phrase) → List Spelling
  | [] => []
  | item :: rest => spellingOfSeries item :: spellingsOfItems rest

end

/-- The spelling of a body. -/
def Body.spelling : Body → Spelling
  | .docOnly doc => ofDoc (some doc)
  | .joined terms doc => spellingOfSeries terms ++ ofDoc doc

/-- The spelling of an operator and of the affixes after it. -/
def Head.spelling : Head → Spelling
  | .addendum => symbol .addendumOperator
  | .definition old affixes =>
    (.definitionOperator, if old then ":<" else ":=") ::
      match affixes with
      | some (side, patterns) =>
        (.affixMarker, side.word) :: patterns.map fun pattern => (.affixPattern, pattern)
      | none => []

/-- The spelling of a definition. -/
def Declaration.spelling (d : Declaration) : Spelling :=
  (.identifier, d.identifier) :: d.head.spelling ++ d.body.spelling ++ symbol .dot

end TypeDescription
