import SampleSchema.Error
/-!
# Mappings

Where settings expect a mapping, an object serves, and so does a list of pairs: lists of two
values or texts of two characters. Of two entries with one name the last counts, at the place
of the first. Names are usually texts, but every value may stand there that holds no list and
no object.
-/

namespace SampleSchema

/-- Named entries; the names need not be texts. -/
abbrev Mapping := List (Value × Value)

namespace Mapping

/-- The number that a value counts as when names are compared: truth values count as one and
zero. -/
def nameNumber : Value → Value
  | .bool b => .int (if b then 1 else 0)
  | v => v

/-- Whether two names are one. -/
def sameName (a b : Value) : Bool :=
  match a, b with
  | .null, .null => true
  | a, b => (nameNumber a).sameScalar (nameNumber b)

/-- Puts an entry in, at the place of the name if it has one and at the end otherwise. -/
def put (name value : Value) : Mapping → Mapping
  | [] => [(name, value)]
  | (key, old) :: rest =>
    if sameName key name then (key, value) :: rest else (key, old) :: put name value rest

mutual

/-- Whether a value can be a name: lists and objects cannot, and a fixed sequence can if its
items can. -/
def isName : Value → Bool
  | .list _ | .object _ => false
  | .tuple items => areNames items
  | _ => true
termination_by structural v => v

def areNames : List Value → Bool
  | [] => true
  | item :: rest => isName item && areNames rest
termination_by structural items => items

end

/-- The parts of a sequence: the items of an array, the characters of a text, the octets of
octets, or the names of an object. -/
def parts? : Value → Option (List Value)
  | .list items => some items
  | .tuple items => some items
  | .str s => some (s.toList.map fun c => .str (String.singleton c))
  | .bytes octets => some (octets.map fun octet => .int octet.toNat)
  | .object members => some (members.map fun (name, _) => .str name)
  | _ => none

/-- The name and value of one entry of a list. -/
def entry (v : Value) : Except Error (Value × Value) :=
  match parts? v with
  | none => .error (.entryNotSequence v)
  | some [name, value] => if isName name then .ok (name, value) else .error (.keyNotName name)
  | some _ => .error (.entryNotPair v)

/-- Adds the entries of a list one after the other. -/
def ofEntries : List Value → Mapping → Except Error Mapping
  | [], mapping => .ok mapping
  | v :: rest, mapping => do
    let (name, value) ← entry v
    ofEntries rest (mapping.put name value)

/-- The mapping that a value stands for. -/
def ofValue (v : Value) : Except Error Mapping :=
  match v with
  | .object members => .ok (members.map fun (name, value) => (.str name, value))
  | v =>
    match parts? v with
    | some entries => ofEntries entries []
    | none => .error (.notMapping v)

/-- The entries whose names are texts. -/
def named (mapping : Mapping) : Table Value :=
  mapping.filterMap fun (name, value) => name.text?.map (·, value)

end Mapping

end SampleSchema
