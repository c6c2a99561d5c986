import TypeDescription.Phrase
import TypeDescription.Unicode.WhiteSpace

/-!
What a written definition means. The value of a phrase is a term; its feature names are put into
upper case, so that a feature that is given twice has both values. Beside its value a phrase has
mentions: the paths, from the definition it stands in, at which its coreferences are written, in
the order of the text. The values of a list lie along its chain, so an item's path counts the items
before it.
-/

namespace TypeDescription

/-- The path that written feature names make. -/
def featurePath (names : Series String) : Path := names.toList.map upperCase

/-- The tag of a coreference, without its number sign. -/
def coreferenceTag (text : String) : String :=
  match text.toList with
  | '#' :: tag => String.ofList tag
  | _ => text

/-- The value of an atom. -/
def AtomKind.term (kind : AtomKind) (text : String) (doc : Option String) : Term :=
  match kind with
  | .name | .quoted => .type .name text doc
  | .string => .type .string text doc
  | .regex => .type .regex text doc
  | .coreference => .coreference (some (coreferenceTag text)) doc

mutual

/-- The value of a phrase. -/
def Phrase.term : Phrase → Term
  | .atom kind text doc => kind.term text doc
  | .avm features doc => Term.withDoc doc (.avm (Avm.ofPaths (valuesOfFeatures features)))
  | .cons items ending doc =>
    let (lastItems, last) := ending.values
    Term.withDoc doc (.cons (ConsList.ofItems (valuesOfItems items ++ lastItems) last))
  | .diff items doc => Term.withDoc doc (.diff (DiffList.ofValues (valuesOfItems items)))

/-- The items that an ending adds to a list, and the conjunction that ends it. -/
def Ending.values : Ending → List Conjunction × Conjunction
  | .closed => ([], [.named emptyListType])
  | .ellipsis => ([], [.named openListType])
  | .dotted last tail => ([valueOfSeries last], valueOfSeries tail)

/-- The value of terms that are joined. -/
def valueOfSeries : Series Phrase → Conjunction
  | ⟨first, rest⟩ => first.term :: valuesOfTerms rest

/-- The values of terms, one by one. -/
def valuesOfTerms : List Phrase → List Term
  | [] => []
  | p :: rest => p.term :: valuesOfTerms rest

/-- The paths and values of features, one by one. -/
def valuesOfFeatures : List (Series String × Series Phrase) → List (Path × Conjunction)
  | [] => []
  | (names, value) :: rest => (featurePath names, valueOfSeries value) :: valuesOfFeatures rest

/-- The values of items, one by one. -/
def valuesOfItems : List (Series Phrase) → List Conjunction
  | [] => []
  | item :: rest => valueOfSeries item :: valuesOfItems rest

end

mutual

/-- The mentions of a phrase that stands at a path. -/
def Phrase.mentions (here : Path) : Phrase → List Mention
  | .atom .coreference text _ => [.single (some (coreferenceTag text)) here.text]
  | .atom .. => []
  | .avm features _ => mentionsOfFeatures here features
  | .cons items ending _ => mentionsOfItems here 0 items ++ ending.mentions here items.length
  | .diff items _ =>
    mentionsOfItems (here ++ [diffListChain]) 0 items ++
      [.together
        [ (here ++ diffListChain :: tailPath items.length).text
        , (here ++ [diffListLast]).text ]]

/-- The mentions of what an ending adds to a list with that many items. -/
def Ending.mentions (here : Path) (length : Nat) : Ending → List Mention
  | .closed | .ellipsis => []
  | .dotted last tail =>
    mentionsOfSeries (here ++ itemPath length) last ++
      mentionsOfSeries (here ++ tailPath (length + 1)) tail

/-- The mentions of joined terms that stand at a path. -/
def mentionsOfSeries (here : Path) : Series Phrase → List Mention
  | ⟨first, rest⟩ => first.mentions here ++ mentionsOfTerms here rest

/-- The mentions of terms that stand at a path. -/
def mentionsOfTerms (here : Path) : List Phrase → List Mention
  | [] => []
  | p :: rest => p.mentions here ++ mentionsOfTerms here rest

/-- The mentions of features of an AVM that stands at a path. -/
def mentionsOfFeatures (here : Path) : List (Series String × Series Phrase) → List Mention
  | [] => []
  | (names, value) :: rest =>
    mentionsOfSeries (here ++ featurePath names) value ++ mentionsOfFeatures here rest

/-- The mentions of the items of a chain that stands at a path, from an index on. -/
def mentionsOfItems (chain : Path) (index : Nat) : List (Series Phrase) → List Mention
  | [] => []
  | item :: rest =>
    mentionsOfSeries (chain ++ itemPath index) item ++ mentionsOfItems chain (index + 1) rest

end

/-- The pattern and the replacement of an affix: what stands before and after its first white
space, once the white space around it is gone. -/
def affixFields (text : String) : String × String :=
  let inner := Unicode.trim text.toList
  let isText (c : Char) := !Unicode.isWhiteSpace c
  (String.ofList (inner.takeWhile isText),
    String.ofList ((inner.dropWhile isText).dropWhile Unicode.isWhiteSpace))

namespace Body

/-- The value of a body. -/
def conjunction : Body → Conjunction
  | docOnly _ => []
  | joined terms _ => valueOfSeries terms

/-- The mentions of a body. -/
def mentions : Body → List Mention
  | docOnly _ => []
  | joined terms _ => mentionsOfSeries [] terms

/-- The docstring of the definition. -/
def doc : Body → Option String
  | docOnly doc => some doc
  | joined _ doc => doc

end Body

namespace Declaration

/-- Does this add to a definition made elsewhere? -/
def isAddendum (d : Declaration) : Bool :=
  match d.head with
  | .addendum => true
  | .definition .. => false

/-- What a written definition defines. All but addenda need a type, and no coreference may stand
alone. -/
def event (d : Declaration) : Except Cause Event :=
  let conjunction := d.body.conjunction
  if !d.isAddendum && conjunction.types.isEmpty then
    .error .missingSupertypes
  else do
    let coreferences ← CoreferenceSet.resolve d.body.mentions
    let definition : Definition :=
      { identifier := d.identifier, conjunction, coreferences, doc := d.body.doc
        isAddendum := d.isAddendum }
    match d.head with
    | .definition _ (some (side, patterns)) =>
      pure (.rule { definition, side, affixes := patterns.map affixFields })
    | _ => pure (.definition definition)

end Declaration

end TypeDescription
