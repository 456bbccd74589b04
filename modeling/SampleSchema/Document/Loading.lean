import SampleSchema.Document.Basic
import SampleSchema.Node
/-!
# The node of a loaded document

Observation can go on from a document that was written earlier. How many samples it was made
of is not recorded, so the root counts as one. A required property was in every sample and
gets the count of its parent; any other gets one less, but at least one.

A type, format, constant or example of the document stands for the observations that led to
it. The test behind a format is not recorded either: a loaded format accepts every text.
-/

namespace SampleSchema.Node

/-- The names in a list of types. -/
def allTexts? (items : List Value) : Option (List String) :=
  items.mapM Value.text?

/-- The types of a loaded position: none for one that never saw a value, and no null beside
other types. -/
def loadedTypes (type : Value) : Except Error (List String) :=
  match type with
  | .null => .ok []
  | .str name => .ok [name]
  | .list items =>
    match allTexts? items with
    | some names =>
      match names.filter (· != "null") with
      | [] => .ok ["null"]
      | others => .ok others
    | none => .error (.badType type)
  | _ => .error (.badType type)

/-- The names that a document requires; entries that are no names are passed over. -/
def requiredNames (required : Value) : List String :=
  match required with
  | .list items => items.filterMap Value.text?
  | _ => []

/-- The samples of a property, from those of its parent. -/
def propertySamples (samples : Nat) (isRequired : Bool) : Nat :=
  if isRequired then samples else max 1 (samples - 1)

/-- What a document says about a position itself, apart from its parts. -/
def ofKeywords (samples : Nat) (types : List String) (keywords : List (String × Value)) :
    Node :=
  let format? :=
    if types.contains "string" then (Value.member "format" keywords).truthy? else none
  let constant := Value.member "const" keywords
  { samples
    types := Table.ofEntries (types.map fun name => (name, samples))
    formats := format?.map fun name => [Detector.always name]
    strings := if format?.isSome then samples else 0
    constant :=
      if constant.primitiveType.isScalar then .candidate constant.primitiveType constant
      else .unset
    exemplar := (Value.member "example" keywords).nonNull? }

mutual

/-- The node of an outline. Faults are looked for at the position itself first, then among
its items, then among its properties. -/
def ofOutline (samples : Nat) : Outline → Except Error Node
  | .stray found => .error (.notSchemaObject found)
  | .branch keywords items properties => do
    let types ← loadedTypes (Value.member "type" keywords)
    let item ← ofItems samples items
    let children ←
      ofProperties samples (requiredNames (Value.member "required" keywords)) properties
    return { ofKeywords samples types keywords with item, properties := children }
termination_by structural outline => outline

def ofItems (samples : Nat) : Option Outline → Except Error (Option Node)
  | none => .ok none
  | some outline => do
    return some (← ofOutline samples outline)
termination_by structural items => items

def ofProperties (samples : Nat) (required : List String) :
    Option (List (String × Outline)) → Except Error (List (String × Node))
  | none => .error .propertiesNotObject
  | some outlines => ofOutlines samples required outlines
termination_by structural properties => properties

def ofOutlines (samples : Nat) (required : List String) :
    List (String × Outline) → Except Error (List (String × Node))
  | [] => .ok []
  | (name, outline) :: rest => do
    let child ← ofOutline (propertySamples samples (required.contains name)) outline
    return (name, child) :: (← ofOutlines samples required rest)
termination_by structural outlines => outlines

end

end SampleSchema.Node
