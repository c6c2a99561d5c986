import TypeDescription.Phrase.Meaning
import TypeDescription.Warning

/-!
Reading tokens. The reader is a machine that takes one token at a time and never looks ahead, so an
item is complete with its last token: a comment and a letter set with themselves, a definition with
its dot. Between items the machine is idle and remembers nothing. Inside a definition it holds the
part of the derivation that lies to the left: the stack of frames is the path from the body down to
the place where reading goes on.

A token that does not fit is blamed on its own line. If the tokens end inside a definition, its
last token is blamed, comments apart.
-/

namespace TypeDescription

/-- The two kinds of written list. -/
inductive ListShape where
  | cons
  | diff
  deriving DecidableEq, Repr

namespace ListShape

/-- The token that closes a list. -/
def close : ListShape → TokenKind
  | cons => .consListClose
  | diff => .diffListClose

end ListShape

/-- The place of a term in a conjunction: the terms before it, and its docstring once it is read. -/
structure Slot where
  before : List Phrase
  doc : Option String

namespace Slot

/-- The place of a first term. -/
def start : Slot := { before := [], doc := none }

/-- The terms up to the one that fills the slot. -/
def fill (slot : Slot) (term : Option String → Phrase) : Series Phrase :=
  Series.ofLast slot.before (term slot.doc)

end Slot

/-- A structured term that is being read: its slot, what of it is complete, and what kind of
conjunction is read inside it. -/
inductive Frame where
  /-- The value of a feature. -/
  | feature (slot : Slot) (done : List (Series String × Series Phrase)) (names : Series String)
  /-- An item of a list. -/
  | item (slot : Slot) (shape : ListShape) (done : List (Series Phrase))
  /-- The tail after the last item of a list. -/
  | tail (slot : Slot) (shape : ListShape) (done : List (Series Phrase)) (last : Series Phrase)

/-- What the token just read leaves open inside the innermost frame. -/
inductive Point where
  /-- A term is due. -/
  | term (slot : Slot)
  /-- A term is complete. -/
  | joined (terms : Series Phrase)
  /-- An AVM has just been opened. -/
  | avmStart (slot : Slot)
  /-- A feature name is due. -/
  | featureName (slot : Slot) (done : List (Series String × Series Phrase)) (names : List String)
  /-- A feature name is complete; its path may go on. -/
  | featureNamed (slot : Slot) (done : List (Series String × Series Phrase)) (names : Series String)
  /-- A list has just been opened. -/
  | listStart (slot : Slot) (shape : ListShape)
  /-- An item or an ellipsis is due. -/
  | listItem (slot : Slot) (shape : ListShape) (done : List (Series Phrase))
  /-- An ellipsis has been read; the list must close. -/
  | listOpen (slot : Slot) (shape : ListShape) (done : List (Series Phrase))

/-- How much of a definition has been read. -/
inductive Stage where
  /-- The operator is due. -/
  | operator
  /-- The operator has been read; affixes may follow. -/
  | opened (old : Bool)
  /-- Affixes are being read. -/
  | affixes (old : Bool) (side : AffixSide) (patterns : List String)
  /-- The body is being read. -/
  | body (head : Head) (frames : List Frame) (point : Point)
  /-- The docstring of the definition has been read; the dot is due. -/
  | documented (head : Head) (terms : Series Phrase) (doc : String)

/-- What a token does to a definition that is being read. -/
inductive Progress where
  /-- Reading goes on; the token may be an old spelling. -/
  | next (stage : Stage) (old : Option OldSpelling)
  /-- The definition is complete. -/
  | complete (head : Head) (body : Body)

namespace Stage

/-- Reading goes on at a point of the body. -/
def goOn (head : Head) (frames : List Frame) (point : Point) : Except Cause Progress :=
  .ok (.next (.body head frames point) none)

/-- A token where a term is due. Only at the very start of a body may a dot follow the docstring. -/
def readTerm (head : Head) (frames : List Frame) (slot : Slot) (t : Token) :
    Except Cause Progress :=
  match t.kind, slot with
  | .docstring, { before, doc := none } => goOn head frames (.term { before, doc := some t.text })
  | .dot, { before := [], doc := some doc } =>
    if frames.isEmpty then .ok (.complete head (.docOnly doc)) else .error .missingTerm
  | .avmOpen, slot => goOn head frames (.avmStart slot)
  | .consListOpen, slot => goOn head frames (.listStart slot .cons)
  | .diffListOpen, slot => goOn head frames (.listStart slot .diff)
  | kind, slot =>
    match AtomKind.ofTokenKind? kind with
    | some atom =>
      let old := if atom = .quoted then some .quotedSymbol else none
      .ok (.next (.body head frames (.joined (slot.fill (.atom atom t.text)))) old)
    | none => .error .missingTerm

/-- A token where a feature name is due. -/
def readFeatureName (head : Head) (frames : List Frame) (slot : Slot)
    (done : List (Series String × Series Phrase)) (names : List String) (t : Token) :
    Except Cause Progress :=
  match t.kind with
  | .identifier => goOn head frames (.featureNamed slot done (Series.ofLast names t.text))
  | _ => .error .missingFeatureName

/-- A token where an item or an ellipsis is due. -/
def readItem (head : Head) (frames : List Frame) (slot : Slot) (shape : ListShape)
    (done : List (Series Phrase)) (t : Token) : Except Cause Progress :=
  match t.kind with
  | .ellipsis => goOn head frames (.listOpen slot shape done)
  | _ => readTerm head (.item slot shape done :: frames) .start t

/-- The delimiter that closes a list. A difference list has neither an open nor a dotted end. -/
def closeList (head : Head) (frames : List Frame) (slot : Slot) (shape : ListShape)
    (items : List (Series Phrase)) (ending : Ending) : Except Cause Progress :=
  match shape, ending with
  | .cons, ending => goOn head frames (.joined (slot.fill (.cons items ending)))
  | .diff, .closed => goOn head frames (.joined (slot.fill (.diff items)))
  | .diff, _ => .error .unboundedDiffList

/-- A token after a complete term. -/
def readAfterTerm (head : Head) (frames : List Frame) (terms : Series Phrase) (t : Token) :
    Except Cause Progress :=
  match t.kind, frames with
  | .ampersand, frames => goOn head frames (.term { before := terms.toList, doc := none })
  | .docstring, [] => .ok (.next (.documented head terms t.text) none)
  | .dot, [] => .ok (.complete head (.joined terms none))
  | _, [] => .error .missingDot
  | .comma, .feature slot done names :: frames =>
    goOn head frames (.featureName slot (done ++ [(names, terms)]) [])
  | .avmClose, .feature slot done names :: frames =>
    goOn head frames (.joined (slot.fill (.avm (done ++ [(names, terms)]))))
  | _, .feature .. :: _ => .error .missingFeatureEnd
  | .comma, .item slot shape done :: frames =>
    goOn head frames (.listItem slot shape (done ++ [terms]))
  | .dot, .item slot shape done :: frames =>
    goOn head (.tail slot shape done terms :: frames) (.term .start)
  | kind, .item slot shape done :: frames =>
    if kind = shape.close then closeList head frames slot shape (done ++ [terms]) .closed
    else .error .missingItemEnd
  | kind, .tail slot shape done last :: frames =>
    if kind = shape.close then closeList head frames slot shape done (.dotted last terms)
    else .error .missingListEnd

/-- A token inside the body of a definition. -/
def readBody (head : Head) (frames : List Frame) (point : Point) (t : Token) :
    Except Cause Progress :=
  match point with
  | .term slot => readTerm head frames slot t
  | .joined terms => readAfterTerm head frames terms t
  | .avmStart slot =>
    if t.kind = .avmClose then goOn head frames (.joined (slot.fill (.avm [])))
    else readFeatureName head frames slot [] [] t
  | .featureName slot done names => readFeatureName head frames slot done names t
  | .featureNamed slot done names =>
    if t.kind = .dot then goOn head frames (.featureName slot done names.toList)
    else readTerm head (.feature slot done names :: frames) .start t
  | .listStart slot shape =>
    if t.kind = shape.close then closeList head frames slot shape [] .closed
    else readItem head frames slot shape [] t
  | .listItem slot shape done => readItem head frames slot shape done t
  | .listOpen slot shape done =>
    if t.kind = shape.close then closeList head frames slot shape done .ellipsis
    else .error .missingListEnd

/-- A token inside a definition, comments apart. -/
def read (stage : Stage) (t : Token) : Except Cause Progress :=
  match stage with
  | .operator =>
    match t.kind with
    | .definitionOperator =>
      if t.text = ":<" then .ok (.next (.opened true) (some .subtypeOperator))
      else .ok (.next (.opened false) none)
    | .addendumOperator => goOn .addendum [] (.term .start)
    | _ => .error .missingOperator
  | .opened old =>
    if t.kind = .affixMarker then
      match AffixSide.ofWord? t.text with
      | some side => .ok (.next (.affixes old side []) none)
      | none => .error (.unexpectedToken t.written)
    else readTerm (.definition old none) [] .start t
  | .affixes old side patterns =>
    if t.kind = .affixPattern then .ok (.next (.affixes old side (patterns ++ [t.text])) none)
    else readTerm (.definition old (some (side, patterns))) [] .start t
  | .body head frames point => readBody head frames point t
  | .documented head terms doc =>
    if t.kind = .dot then .ok (.complete head (.joined terms (some doc))) else .error .missingDot

end Stage

/-- The state of the machine between two tokens. -/
inductive Reader where
  | idle
  /-- Inside a definition, whose last token, comments apart, is on the line `line`. -/
  | within (identifier : String) (line : Nat) (stage : Stage)

/-- What one token brings about. -/
structure Step where
  reader : Reader
  event : Option Event
  warning : Option Warning

namespace Reader

/-- A token between items. -/
def readItem (t : Token) : Except Error Step :=
  match t.kind with
  | .lineComment =>
    .ok { reader := idle, event := some (.lineComment t.text t.line), warning := none }
  | .blockComment =>
    .ok { reader := idle, event := some (.blockComment t.text t.line), warning := none }
  | .letterSet =>
    .ok { reader := idle, event := some (.letterSet t.text t.line), warning := none }
  | .identifier =>
    .ok { reader := within t.text t.line .operator, event := none, warning := none }
  | _ => .error (.onLine (.unexpectedToken t.written) t.line)

/-- A token inside a definition, comments apart. -/
def readWithin (identifier : String) (stage : Stage) (t : Token) : Except Cause Step := do
  match ← stage.read t with
  | .next stage old =>
    let warning := old.map fun spelling =>
      { spelling, line := t.line, identifier := some identifier }
    pure { reader := within identifier t.line stage, event := none, warning }
  | .complete head body =>
    let event ← Declaration.event { identifier, head, body }
    pure { reader := idle, event := some event, warning := none }

/-- One token. -/
def read (reader : Reader) (t : Token) : Except Error Step :=
  match reader with
  | idle => readItem t
  | within identifier _ stage =>
    if t.isComment then
      .ok { reader, event := none, warning := none }
    else
      (readWithin identifier stage t).mapError fun cause =>
        (Error.onLine cause t.line).withIdentifier identifier

/-- What a token that is taken brings about. -/
inductive Taken (t : Token) : Reader → Step → Prop where
  | item {step : Step} (taken : readItem t = .ok step) : Taken t idle step
  | comment {identifier : String} {line : Nat} {stage : Stage} (comment : t.isComment = true) :
    Taken t (within identifier line stage)
      { reader := within identifier line stage, event := none, warning := none }
  | next {identifier : String} {line : Nat} {stage later : Stage} {old : Option OldSpelling}
    (taken : stage.read t = .ok (.next later old)) :
    Taken t (within identifier line stage)
      { reader := within identifier t.line later, event := none
        warning := old.map fun spelling => { spelling, line := t.line, identifier := some identifier } }
  | complete {identifier : String} {line : Nat} {stage : Stage} {head : Head} {body : Body} {event : Event}
    (taken : stage.read t = .ok (.complete head body))
    (meant : Declaration.event { identifier, head, body } = .ok event) :
    Taken t (within identifier line stage) { reader := idle, event := some event, warning := none }

theorem taken_of_read {reader : Reader} {t : Token} {step : Step} (taken : reader.read t = .ok step) :
    Taken t reader step := by
  cases reader with
  | idle => exact .item taken
  | within identifier line stage =>
    rw [read] at taken
    split at taken
    · next comment =>
      cases taken
      exact .comment comment
    · rw [readWithin] at taken
      cases answer : stage.read t with
      | error cause =>
        rw [answer] at taken
        cases taken
      | ok progress =>
        rw [answer] at taken
        cases progress with
        | next later old =>
          cases taken
          exact .next answer
        | complete head body =>
          simp only [bind, Except.bind] at taken
          cases meant : Declaration.event { identifier, head, body } with
          | error cause =>
            rw [meant] at taken
            cases taken
          | ok event =>
            rw [meant] at taken
            cases taken
            exact .complete answer meant

/-- The fault, if any, with which the tokens end: the fault that ended them, or the end of the
input inside a definition. -/
def endFault (reader : Reader) (fault : Option Error) : Option Error :=
  match reader, fault with
  | idle, fault => fault
  | within identifier _ _, some fault => some (fault.withIdentifier identifier)
  | within identifier line _, none =>
    some ((Error.onLine .unexpectedEnd line).withIdentifier identifier)

end Reader

/-- What reading a source yields: events, and the fault that ended them, if any. Warnings are
collected beside them. -/
structure Outcome where
  events : List Event
  warnings : List Warning
  error : Option Error

namespace Outcome

/-- What one step yields, before the rest. -/
def after (step : Step) (o : Outcome) : Outcome :=
  { o with
    events := step.event.toList ++ o.events
    warnings := step.warning.toList ++ o.warnings }

end Outcome

namespace Reader

/-- All tokens, and the fault that ended them. -/
def run (fault : Option Error) : Reader → List Token → Outcome
  | reader, [] => { events := [], warnings := [], error := reader.endFault fault }
  | reader, t :: rest =>
    match reader.read t with
    | .ok step => (run fault step.reader rest).after step
    | .error e => { events := [], warnings := [], error := some e }

end Reader

end TypeDescription
