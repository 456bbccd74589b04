import SampleSchema.Number.Shortest
import SampleSchema.Text.Digit
import SampleSchema.Text.Utf8
import SampleSchema.Value.Basic
/-!
# Writing JSON texts

A value is written on one line without any space, or with every item and member on a line of
its own behind a repeated indentation. Characters stand for themselves, except quotes,
backslashes and controls. A number that is not finite has no JSON text, and neither have
octets that are no UTF-8.
-/

namespace SampleSchema.Json

/-- Why a value has no text. -/
inductive PrintFault where
  | notFinite
  | notText (fault : Text.Utf8Fault)
  | tooManyDigits

/-! ## Strings -/

/-- A character inside quotes. -/
def escaped (c : Char) : List Char :=
  match c with
  | '"' => ['\\', '"']
  | '\\' => ['\\', '\\']
  | '\x08' => ['\\', 'b']
  | '\x0c' => ['\\', 'f']
  | '\n' => ['\\', 'n']
  | '\r' => ['\\', 'r']
  | '\t' => ['\\', 't']
  | c => if c.toNat < 0x20 then '\\' :: 'u' :: Text.hexDigits 4 c.toNat else [c]

/-- A text as a JSON string. -/
def quote (cs : List Char) : List Char :=
  '"' :: (cs.flatMap escaped ++ ['"'])

/-! ## Layout -/

/-- What starts the line at a depth: nothing in the compact form. -/
def lineStart (indent : List Char) (depth : Nat) : List Char :=
  if indent.isEmpty then [] else '\n' :: (List.replicate depth indent).flatten

/-- What stands between a name and its value. -/
def colon (indent : List Char) : List Char :=
  if indent.isEmpty then [':'] else [':', ' ']

/-- Puts brackets around the parts of a value, each part on its line. -/
def enclose (indent : List Char) (depth : Nat) (opening closing : Char) :
    List (List Char) → List Char
  | [] => [opening, closing]
  | first :: rest =>
    let separated := rest.flatMap fun part => ',' :: (lineStart indent (depth + 1) ++ part)
    opening :: (lineStart indent (depth + 1) ++ first ++ separated ++ lineStart indent depth ++
      [closing])

/-! ## Values -/

/-- The text of an integer. -/
def printInt (n : Int) : Except PrintFault (List Char) :=
  let digits := Nat.toDigits 10 n.natAbs
  if Text.digitLimit < digits.length then .error .tooManyDigits
  else .ok (if n < 0 then '-' :: digits else digits)

mutual

/-- The text of a value at a depth. -/
def printValue (indent : List Char) (depth : Nat) : Value → Except PrintFault (List Char)
  | .null => .ok ['n', 'u', 'l', 'l']
  | .bool true => .ok ['t', 'r', 'u', 'e']
  | .bool false => .ok ['f', 'a', 'l', 's', 'e']
  | .int n => printInt n
  | .float x => if x.isFinite then .ok x.text else .error .notFinite
  | .str s => .ok (quote s.toList)
  | .bytes octets =>
    match Text.decodeUtf8 octets with
    | .ok cs => .ok (quote cs)
    | .error fault => .error (.notText fault)
  | .list items => do
    return enclose indent depth '[' ']' (← printItems indent (depth + 1) items)
  | .tuple items => do
    return enclose indent depth '[' ']' (← printItems indent (depth + 1) items)
  | .object members => do
    return enclose indent depth '\x7b' '\x7d' (← printMembers indent (depth + 1) members)
termination_by structural v => v

/-- The texts of the items of an array. -/
def printItems (indent : List Char) (depth : Nat) :
    List Value → Except PrintFault (List (List Char))
  | [] => .ok []
  | item :: rest => do
    let first ← printValue indent depth item
    return first :: (← printItems indent depth rest)
termination_by structural items => items

/-- The texts of the members of an object, each with its name. -/
def printMembers (indent : List Char) (depth : Nat) :
    List (String × Value) → Except PrintFault (List (List Char))
  | [] => .ok []
  | (name, value) :: rest => do
    let text ← printValue indent depth value
    let first := quote name.toList ++ colon indent ++ text
    return first :: (← printMembers indent depth rest)
termination_by structural members => members

end

/-- The JSON text of a value. An empty indentation gives the compact form. -/
def print (indent : String) (v : Value) : Except PrintFault String :=
  (printValue indent.toList 0 v).map String.ofList

end SampleSchema.Json
