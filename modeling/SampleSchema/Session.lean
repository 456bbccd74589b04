import SampleSchema.Document.Loading
import SampleSchema.Json.Reader
import SampleSchema.Notice
import SampleSchema.Settings
/-!
# Sessions

A session takes samples and documents in and gives documents out, in any order. Its state is
the tree of observations, the number of samples, and the document that was read last, as long
as nothing changed since. A document that was loaded is that document until a sample comes:
it is given out as it was loaded, not as the tree would describe it.

A call that fails leaves alone what was taken in. It may only have remembered the document, which
no answer shows.
-/

namespace SampleSchema

/-- The state of a session. -/
structure Session where
  options : Options
  root : Node := {}
  current : Option Document := none
  count : Nat := 0

namespace Session

/-- The session in which nothing was seen yet. -/
def start (settings : Settings) : Except Error Session := do
  return { options := ← Options.ofSettings settings }

/-! ## Texts -/

/-- The value of the JSON text of a sample or document in a dialect. -/
def parseIn (dialect : Json.Dialect) (text : String) : Except Error Value :=
  match Json.read dialect text.toList with
  | .ok value => .ok value
  | .error .tooManyDigits => .error .tooManyDigits
  | .error fault => .error (.malformedSample fault)

/-- The value of the JSON text of a sample or document. -/
def parse (text : String) : Except Error Value :=
  parseIn .strict text

/-- The value of a JSON text in UTF-8. -/
def parseOctets (octets : List UInt8) : Except Error Value :=
  match Text.decodeUtf8 octets with
  | .ok cs => parse (String.ofList cs)
  | .error fault => .error (.undecodableSample fault)

/-! ## Samples -/

/-- Prescribes the types of the fields that have been seen so far. -/
def prescribe (predefined : List (String × String)) (root : Node) : Node :=
  { root with
    properties := root.properties.map fun (name, child) =>
      match Table.get? name predefined with
      | some type => (name, { child with override := some type })
      | none => (name, child) }

/-- Takes a sample in, unless the cap was reached before. -/
def add (session : Session) (sample : Value) : Session × List Notice :=
  let options := session.options
  if options.cap.isReached session.count then (session, [])
  else
    let count := session.count + 1
    let root := prescribe options.predefined (session.root.observe options.observer sample)
    ({ session with root, count, current := none },
      if options.cap.announces count then [.capReached count] else [])

/-- Takes samples in, one after the other. -/
def addAll (session : Session) : List Value → Session × List Notice
  | [] => (session, [])
  | sample :: rest =>
    let (session, notices) := session.add sample
    let (session, more) := session.addAll rest
    (session, notices ++ more)

/-! ## Documents -/

/-- The document of everything that was taken in. -/
def document (session : Session) : Except Error Document :=
  if session.count = 0 then .error .noSamples
  else
    .ok (session.current.getD (Document.assemble session.options.version session.root))

/-- The JSON text of the document. -/
def text (session : Session) : Except Error String := do
  (← session.document).toText session.options.indent

/-- The session that remembers the document that was read. -/
def remember (session : Session) : Session :=
  match session.document with
  | .ok document => { session with current := some document }
  | .error _ => session

/-! ## Loading -/

/-- The node and the document of a value whose root is an object schema. -/
def loadable (v : Value) : Except Error (Node × Document) := do
  let type :=
    match v with
    | .object members => Value.member "type" members
    | _ => .null
  match type with
  | .str "object" =>
    let outline := Outline.ofValue v
    let root ← Node.ofOutline 1 outline
    let document ← Document.ofOutline outline
    return (root, document)
  | _ => .error (.rootNotObject type)

/-- Goes on from a document, as if it were the only sample so far. -/
def loadValue (session : Session) (v : Value) : Except Error (Session × List Notice) := do
  let (root, document) ← loadable v
  return ({ session with root, count := 1, current := some document },
    [.documentLoaded root.properties.length])

/-- Goes on from a document that is given as a value or as a JSON text. -/
def load (session : Session) (v : Value) : Except Error (Session × List Notice) := do
  match v with
  | .str text => session.loadValue (← parse text)
  | .bytes octets => session.loadValue (← parseOctets octets)
  | v => session.loadValue v

/-! ## Calls -/

/-- What can be asked of a session. -/
inductive Call where
  | add (sample : Value)
  | addText (text : String)
  | addOctets (octets : List UInt8)
  | load (document : Value)
  | loadDocument (document : Document)
  | reload
  | readDocument
  | readText
  | readLine

/-- What a call gives back. -/
inductive Answer where
  | done
  | text (text : String)
  | document (document : Document)

/-- What a call comes to: the session after it, and what is answered and told, or why it
failed. -/
abbrev Outcome := Session × Except Error (Answer × List Notice)

/-- Goes on from a changed session. A change that is refused leaves the session as it was. -/
def change (session : Session) (result : Except Error (Session × List Notice)) : Outcome :=
  match result with
  | .ok (changed, notices) => (changed, .ok (.done, notices))
  | .error error => (session, .error error)

/-- Shows the document. It is remembered first, so that a document which turns out to have no
text is remembered, too. -/
def read (session : Session) (form : Document → Except Error Answer) : Outcome :=
  (session.remember, do return (← form (← session.document), []))

/-- One call. -/
def step (session : Session) (call : Call) : Outcome :=
  match call with
  | .add sample => session.change (.ok (session.add sample))
  | .addText text => session.change (do return session.add (← parse text))
  | .addOctets octets => session.change (do return session.add (← parseOctets octets))
  | .load document => session.change (session.load document)
  | .loadDocument document => session.change (session.loadValue document.toValue)
  | .reload => session.remember.change (do session.load (.str (← session.text)))
  | .readDocument => session.read fun document => .ok (.document document)
  | .readText => session.read fun document => do
    return .text (← document.toText session.options.indent)
  | .readLine => session.read fun document => do
    return .text ((← document.toText session.options.indent) ++ "\n")

/-- Samples beyond the cap leave the session as it was. -/
theorem add_of_isReached {session : Session} {sample : Value}
    (h : session.options.cap.isReached session.count = true) :
    session.add sample = (session, []) := by
  simp [add, h]

/-- The answers to a sequence of calls, and the session after them. -/
def run (session : Session) : List Call → Session × List (Except Error (Answer × List Notice))
  | [] => (session, [])
  | call :: rest =>
    let (session, answer) := session.step call
    let (session, answers) := session.run rest
    (session, answer :: answers)

end Session

end SampleSchema
