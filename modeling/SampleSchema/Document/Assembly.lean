import SampleSchema.Document.Basic
import SampleSchema.Node
/-!
# The document of a node

The document shows all types that were seen at a position, but describes the parts of the
most frequent one only. A prescribed type takes the place of whatever was observed, except
that the parts of arrays and objects are still described.
-/

namespace SampleSchema

/-- The types that a position can be prescribed to have. -/
def predefinedTypes : List String :=
  ["datetime", "string", "boolean", "number", "integer", "array", "object"]

namespace Document

/-- The type keyword: the one type seen, or the list of several without null. Where nothing
was seen there is none. -/
def typeOf (node : Node) : Option Value :=
  if 1 < node.types.length then
    match node.observedTypes with
    | [] => none
    | [type] => some (.str type)
    | types => some (.list (types.map .str))
  else node.primaryType?.map .str

/-- The document of a position with a prescribed type, given the documents of its parts. -/
def ofOverride (version : Option Value) (override : String) (items : Option Document)
    (properties : List (String × Document)) : Document :=
  if override = "datetime" then
    { version, type := some (.str "string"), format := some (.str "date-time") }
  else if override = "array" then { version, type := some (.str "array"), items }
  else if override = "object" then { version, type := some (.str "object"), properties }
  else { version, type := some (.str override) }

/-- The document of a position from what was observed there, given the documents of its
parts. -/
def ofObservations (version : Option Value) (node : Node) (items : Option Document)
    (properties : List (String × Document)) : Document :=
  let primary := node.primaryType?
  { version
    type := typeOf node
    items := if primary = some "array" then items else none
    properties := if primary = some "object" then properties else []
    required := if primary = some "object" then node.required.map .str else []
    format := if primary = some "string" then node.format?.bind Value.truthy? else none
    constant := node.constant?
    exemplar := node.exemplar }

mutual

/-- The document of a node. The version belongs to the root alone. -/
def assemble (version : Option Value) : Node → Document
  | ⟨samples, strings, types, formats, constant, exemplar, item, properties, override⟩ =>
    let items := assembleItem item
    let children := assembleProperties properties
    match override.filter (· != "") with
    | some type => ofOverride version type items children
    | none =>
      ofObservations version
        ⟨samples, strings, types, formats, constant, exemplar, item, properties, override⟩
        items children
termination_by structural node => node

def assembleItem : Option Node → Option Document
  | none => none
  | some item => some (assemble none item)
termination_by structural item => item

def assembleProperties : List (String × Node) → List (String × Document)
  | [] => []
  | (name, child) :: rest => (name, assemble none child) :: assembleProperties rest
termination_by structural properties => properties

end

end Document

end SampleSchema
