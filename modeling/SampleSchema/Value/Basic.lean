import SampleSchema.Number.Binary64
import SampleSchema.Table
/-!
# Values

What samples, documents and settings are made of: the values of a JSON text, and two more
that a program may hand over directly, fixed sequences and octets. A fixed sequence counts as
an array, octets count as a string.

Integers and binary numbers are different values, and each value is classified by one of the
seven primitive types: a binary number without a fraction is an integer.
-/

namespace SampleSchema

/-- A value. The members of an object have distinct names. -/
inductive Value where
  | null
  | bool (b : Bool)
  | int (n : Int)
  | float (x : Binary64)
  | str (s : String)
  | bytes (octets : List UInt8)
  | list (items : List Value)
  | tuple (items : List Value)
  | object (members : List (String × Value))

/-! ## Primitive types -/

/-- The types of a schema. -/
inductive PrimitiveType where
  | null
  | boolean
  | integer
  | number
  | string
  | array
  | object
deriving DecidableEq

/-- The name of a type in a document. -/
def PrimitiveType.name : PrimitiveType → String
  | .null => "null"
  | .boolean => "boolean"
  | .integer => "integer"
  | .number => "number"
  | .string => "string"
  | .array => "array"
  | .object => "object"

/-- Whether values of the type can be constants: the types without parts, but for null. -/
def PrimitiveType.isScalar : PrimitiveType → Bool
  | .boolean | .integer | .number | .string => true
  | .null | .array | .object => false

namespace Value

/-- The primitive type of a value. Infinities and the number that is none have no integral
value and are numbers. -/
def primitiveType : Value → PrimitiveType
  | .null => .null
  | .bool _ => .boolean
  | .int _ => .integer
  | .float x => if x.isIntegral then .integer else .number
  | .str _ => .string
  | .bytes _ => .string
  | .list _ => .array
  | .tuple _ => .array
  | .object _ => .object

/-! ## Views -/

def isNull : Value → Bool
  | .null => true
  | _ => false

/-- The value, unless it is null. -/
def nonNull? : Value → Option Value
  | .null => none
  | v => some v

/-- Whether a value counts as true where a yes or no is asked for: everything but null,
false, zero and what is empty. -/
def truthy : Value → Bool
  | .null => false
  | .bool b => b
  | .int n => n != 0
  | .float x => !x.isZero
  | .str s => !s.isEmpty
  | .bytes octets => !octets.isEmpty
  | .list items => !items.isEmpty
  | .tuple items => !items.isEmpty
  | .object members => !members.isEmpty

/-- The value, if it counts as true. -/
def truthy? (v : Value) : Option Value :=
  if v.truthy then some v else none

/-- The members of an object. -/
def members? : Value → Option (Table Value)
  | .object members => some members
  | _ => none

/-- The text of a string. -/
def text? : Value → Option String
  | .str s => some s
  | _ => none

/-- The member of this name, null if there is none. -/
def member (name : String) (members : Table Value) : Value :=
  (members.get? name).getD .null

/-- The object of these members: of two with one name the last counts, at the place of the
first. -/
def ofMembers (members : List (String × Value)) : Value :=
  .object (Table.ofEntries members)

/-! ## Equality of constants -/

/-- Whether two scalars are equal. Numbers are compared by what they stand for, so an
integer can equal a binary number; octets never equal a text. -/
def sameScalar : Value → Value → Bool
  | .bool a, .bool b => a == b
  | .int m, .int n => m == n
  | .int n, .float x => x.sameInt n
  | .float x, .int n => x.sameInt n
  | .float x, .float y => x.same y
  | .str s, .str t => s == t
  | .bytes s, .bytes t => s == t
  | _, _ => false

end Value

end SampleSchema
