import SampleSchema.Error
/-!
# Schema documents

A document is a record with one field for each keyword that is understood. A field that is
unset is left out when the document is written, and a keyword whose value says nothing is
read as unset: null for most keywords, any empty value for the version and the format, an
empty or malformed list for the required names.

Writing lists the properties by ascending name. Reading is in two steps: the outline of a
value shows which parts of it stand for documents, and a document is made from the outline.
-/

namespace SampleSchema

/-- A schema document. Unset keywords are `none` or empty. -/
structure Document where
  version : Option Value := none
  type : Option Value := none
  properties : List (String × Document) := []
  items : Option Document := none
  required : List Value := []
  format : Option Value := none
  constant : Option Value := none
  exemplar : Option Value := none
  additionalProperties : Option Value := none

/-! ## Outlines -/

/-- A value seen as a document: an object with its keywords, the outline of its items unless
they are null, and the outlines of its properties. Properties that are neither null nor an
object are `none`. A value that is no object is a stray. -/
inductive Outline where
  | stray (found : Value)
  | branch (keywords : List (String × Value)) (items : Option Outline)
      (properties : Option (List (String × Outline)))

namespace Outline

mutual

/-- The outline of a value. -/
def ofValue : Value → Outline
  | .object members => .branch members (itemsOf members) (propertiesOf members)
  | v => .stray v
termination_by structural v => v

/-- The outline of the items among the members of an object. -/
def itemsOf : List (String × Value) → Option Outline
  | [] => none
  | (name, value) :: rest =>
    if name = "items" then (if value.isNull then none else some (ofValue value))
    else itemsOf rest
termination_by structural members => members

/-- The outlines of the properties among the members of an object. -/
def propertiesOf : List (String × Value) → Option (List (String × Outline))
  | [] => some []
  | (name, value) :: rest =>
    if name = "properties" then propertyOutlines value else propertiesOf rest
termination_by structural members => members

/-- The outlines of the members of a properties object. -/
def propertyOutlines : Value → Option (List (String × Outline))
  | .null => some []
  | .object members => some (memberOutlines members)
  | _ => none
termination_by structural v => v

def memberOutlines : List (String × Value) → List (String × Outline)
  | [] => []
  | (name, value) :: rest => (name, ofValue value) :: memberOutlines rest
termination_by structural members => members

end

end Outline

/-! ## Reading -/

namespace Document

/-- The elements of a list; anything else has none. -/
def listItems : Value → List Value
  | .list items => items
  | _ => []

mutual

/-- The document that an outline stands for. Strays are refused. -/
def ofOutline : Outline → Except Error Document
  | .stray found => .error (.notDocument found)
  | .branch keywords items properties => do
    let properties ← ofProperties keywords properties
    let items ← ofItems items
    return {
      version := (Value.member "$schema" keywords).truthy?
      type := (Value.member "type" keywords).nonNull?
      properties
      items
      required := listItems (Value.member "required" keywords)
      format := (Value.member "format" keywords).truthy?
      constant := (Value.member "const" keywords).nonNull?
      exemplar := (Value.member "example" keywords).nonNull?
      additionalProperties := (Value.member "additionalProperties" keywords).nonNull? }
termination_by structural outline => outline

def ofItems : Option Outline → Except Error (Option Document)
  | none => .ok none
  | some outline => do
    return some (← ofOutline outline)
termination_by structural items => items

def ofProperties (keywords : List (String × Value)) :
    Option (List (String × Outline)) → Except Error (List (String × Document))
  | some outlines => ofOutlines outlines
  | none => .error (.notDocument (Value.member "properties" keywords))
termination_by structural properties => properties

def ofOutlines : List (String × Outline) → Except Error (List (String × Document))
  | [] => .ok []
  | (name, outline) :: rest => do
    let document ← ofOutline outline
    return (name, document) :: (← ofOutlines rest)
termination_by structural outlines => outlines

end

/-- The document that a value stands for. -/
def ofValue (v : Value) : Except Error Document :=
  ofOutline (.ofValue v)

/-! ## Writing -/

/-- A keyword with its value, if the value is there. -/
def keyword (name : String) (value : Option Value) : List (String × Value) :=
  match value with
  | some v => [(name, v)]
  | none => []

/-- A keyword for a list of things, if there are any. -/
def keywordUnlessEmpty {α : Type} (name : String) (things : List α) (value : Value) :
    List (String × Value) :=
  if things.isEmpty then [] else [(name, value)]

mutual

/-- The value of a document: its keywords in a fixed order. -/
def toValue : Document → Value
  | ⟨version, type, properties, items, required, format, constant, exemplar,
      additionalProperties⟩ =>
    .object <|
      keyword "$schema" version ++
      keyword "type" type ++
      keywordUnlessEmpty "properties" properties
        (.object (ascending (·.1) (toMembers properties))) ++
      keyword "items" (itemsToValue items) ++
      keywordUnlessEmpty "required" required (.list required) ++
      keyword "format" format ++
      keyword "const" constant ++
      keyword "example" exemplar ++
      keyword "additionalProperties" additionalProperties
termination_by structural document => document

def itemsToValue : Option Document → Option Value
  | none => none
  | some items => some items.toValue
termination_by structural items => items

def toMembers : List (String × Document) → List (String × Value)
  | [] => []
  | (name, document) :: rest => (name, document.toValue) :: toMembers rest
termination_by structural properties => properties

end

/-- The JSON text of a document. -/
def toText (indent : String) (document : Document) : Except Error String :=
  match Json.print indent document.toValue with
  | .ok text => .ok text
  | .error fault => .error (.unprintable fault)

end Document

end SampleSchema
