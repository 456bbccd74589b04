import SampleSchema.Format.Detector
import SampleSchema.Value.Display
/-!
# What was observed at a position

A node stands for one position of the sampled documents: the root, a property, or the items
of an array. It keeps counts, not values. All elements of all arrays at a position share one
item node, and an object contributes to one child per property.

Three things are learned from the values of a position in passing: the constant that all
scalars so far were equal to, the formats that all texts so far had, and an example. A null
member is not passed on to the child of its property, so the child counts fewer values than
its parent and the property is not required.
-/

namespace SampleSchema

/-- What is known about a constant: no scalar was seen yet, all scalars were equal to the
first one, or two of them differed. -/
inductive Constant where
  | unset
  | candidate (type : PrimitiveType) (value : Value)
  | disqualified

/-- The observations at one position. `types` counts the values by the name of their type, in
the order of first sight; a loaded document may bring names of its own. `formats` is absent
until a text is seen. A position whose type is prescribed has it in `override`. -/
structure Node where
  samples : Nat := 0
  strings : Nat := 0
  types : List (String × Nat) := []
  formats : Option (List Detector) := none
  constant : Constant := .unset
  exemplar : Option Value := none
  item : Option Node := none
  properties : List (String × Node) := []
  override : Option String := none

/-- How values are looked at: whether the first value of each position is kept as an example,
and which formats are looked for. -/
structure Observer where
  keepsExamples : Bool
  detectors : List Detector

/-- The constant after one more value. A scalar of another type or value disqualifies it for
good; values with parts and nulls have no say. -/
def Constant.track (constant : Constant) (v : Value) : Constant :=
  if v.primitiveType.isScalar then
    match constant with
    | .unset => .candidate v.primitiveType v
    | .candidate type value =>
      if type = v.primitiveType && value.sameScalar v then .candidate type value
      else .disqualified
    | .disqualified => .disqualified
  else constant

namespace Node

/-! ## Observation -/

/-- Counts a value at the node itself: everything but the parts of the value. -/
def record (observer : Observer) (v : Value) (node : Node) : Node :=
  let isText := v.primitiveType = .string
  { node with
    samples := node.samples + 1
    strings := if isText then node.strings + 1 else node.strings
    types := Table.alter v.primitiveType.name (fun count => count.getD 0 + 1) node.types
    formats :=
      if isText then
        some ((node.formats.getD observer.detectors).filter (·.accepts v.plainText))
      else node.formats
    constant := node.constant.track v
    exemplar :=
      if observer.keepsExamples && node.samples == 0 then v.nonNull? else node.exemplar }

mutual

/-- The node after one more value. -/
def observe (observer : Observer) : Value → Node → Node
  | .list items, node =>
    { record observer (.list items) node with
      item := some (observeItems observer items (node.item.getD {})) }
  | .tuple items, node =>
    { record observer (.tuple items) node with
      item := some (observeItems observer items (node.item.getD {})) }
  | .object members, node =>
    { record observer (.object members) node with
      properties := observeMembers observer members node.properties }
  | v, node => record observer v node
termination_by structural v => v

/-- The item node after the elements of one more array. -/
def observeItems (observer : Observer) : List Value → Node → Node
  | [], node => node
  | item :: rest, node => observeItems observer rest (observe observer item node)
termination_by structural items => items

/-- The children of a node after the members of one more object. -/
def observeMembers (observer : Observer) :
    List (String × Value) → List (String × Node) → List (String × Node)
  | [], children => children
  | (name, value) :: rest, children =>
    observeMembers observer rest <|
      if value.isNull then children
      else Table.alter name (fun child => observe observer value (child.getD {})) children
termination_by structural members => members

end

/-- The node after a sequence of values. -/
def observeAll (observer : Observer) (values : List Value) (node : Node) : Node :=
  values.foldl (fun node v => node.observe observer v) node

/-- Every value counts as one sample of its position. -/
@[simp] theorem samples_observe (observer : Observer) (v : Value) (node : Node) :
    (node.observe observer v).samples = node.samples + 1 := by
  cases v <;> rfl

@[simp] theorem observeAll_nil (observer : Observer) (node : Node) :
    node.observeAll observer [] = node := rfl

@[simp] theorem observeAll_cons (observer : Observer) (v : Value) (values : List Value)
    (node : Node) :
    node.observeAll observer (v :: values) =
      (node.observe observer v).observeAll observer values := rfl

theorem observeAll_append (observer : Observer) (values more : List Value) (node : Node) :
    node.observeAll observer (values ++ more) =
      (node.observeAll observer values).observeAll observer more := by
  simp [observeAll, List.foldl_append]

theorem samples_observeAll (observer : Observer) (values : List Value) (node : Node) :
    (node.observeAll observer values).samples = node.samples + values.length := by
  induction values generalizing node with
  | nil => rfl
  | cons v rest ih =>
    rw [observeAll_cons, ih, samples_observe, List.length_cons]
    omega

/-- The elements of one array are observed like a sequence of values. -/
theorem observeItems_eq_observeAll (observer : Observer) (items : List Value) (node : Node) :
    observeItems observer items node = node.observeAll observer items := by
  induction items generalizing node with
  | nil => rfl
  | cons item rest ih => exact ih (node.observe observer item)

/-! ## Prescribed types -/

/-- Prescribes the type of the position at the end of a path from this one, where each step
leads to a property, or to the items if it names none. Gives the changed node and the one at
the position. -/
def prescribeAt (type : String) : List (Option String) → Node → Except Error (Node × Node)
  | [], node => .ok ({ node with override := some type }, { node with override := some type })
  | none :: rest, node =>
    match node.item with
    | some item => do
      let (item, reached) ← prescribeAt type rest item
      return ({ node with item := some item }, reached)
    | none => .error .noItem
  | some name :: rest, node =>
    match Table.get? name node.properties with
    | some child => do
      let (child, reached) ← prescribeAt type rest child
      return ({ node with properties := Table.put name child node.properties }, reached)
    | none => .error (.noSuchProperty name)

/-! ## Summaries -/

/-- Whether a count by type goes before another: more values, or as many and a smaller
name. -/
def outranks (a b : String × Nat) : Bool :=
  b.2 < a.2 || (a.2 == b.2 && a.1 < b.1)

/-- The count that goes before all others. -/
def dominant? : List (String × Nat) → Option (String × Nat)
  | [] => none
  | count :: rest =>
    match dominant? rest with
    | some best => if outranks best count then some best else some count
    | none => some count

/-- The type that most values had; of equally frequent ones the smallest name. -/
def primaryType? (node : Node) : Option String :=
  (dominant? node.types).map (·.1)

/-- The types that were seen, in ascending order and without null. -/
def observedTypes (node : Node) : List String :=
  ascending id ((Table.names node.types).filter (· != PrimitiveType.null.name))

/-- The properties that every value of the position had, in ascending order. -/
def required (node : Node) : List String :=
  ascending id
    (Table.names (node.properties.filter fun (_, child) => child.samples == node.samples))

/-- The constant that no value contradicted. -/
def constant? (node : Node) : Option Value :=
  match node.constant with
  | .candidate _ value => some value
  | _ => none

/-- The name of the earliest format that all texts had. -/
def format? (node : Node) : Option Value :=
  node.formats.bind fun formats => formats.head?.map (·.name)

end Node

end SampleSchema
