import SampleSchema.Number.Shortest
import SampleSchema.Text.Quoted
import SampleSchema.Value.Basic
/-!
# Values in messages

A message shows a value in full: a text as it is when it stands alone, and quoted inside
another value. These spellings belong to the messages alone; documents are written as JSON.
-/

namespace SampleSchema

namespace Value

/-- What a kind of value is called in messages. -/
def kindName : Value → String
  | .null => "NoneType"
  | .bool _ => "bool"
  | .int _ => "int"
  | .float _ => "float"
  | .str _ => "str"
  | .bytes _ => "bytes"
  | .list _ => "list"
  | .tuple _ => "tuple"
  | .object _ => "dict"

/-- The shown parts with commas between them. -/
def joinShown : List (List Char) → List Char
  | [] => []
  | [part] => part
  | part :: rest => part ++ ',' :: ' ' :: joinShown rest

mutual

/-- A value inside a message, with every text quoted. -/
def shown : Value → List Char
  | .null => "None".toList
  | .bool b => if b then "True".toList else "False".toList
  | .int n => (toString n).toList
  | .float x => x.text
  | .str s => Text.quoted s.toList
  | .bytes octets => Text.quotedOctets octets
  | .list items => '[' :: (joinShown (shownItems items) ++ [']'])
  | .tuple items =>
    match shownItems items with
    | [item] => '(' :: (item ++ [',', ')'])
    | parts => '(' :: (joinShown parts ++ [')'])
  | .object members => '{' :: (joinShown (shownMembers members) ++ ['}'])
termination_by structural v => v

def shownItems : List Value → List (List Char)
  | [] => []
  | item :: rest => shown item :: shownItems rest
termination_by structural items => items

def shownMembers : List (String × Value) → List (List Char)
  | [] => []
  | (name, value) :: rest =>
    (Text.quoted name.toList ++ ':' :: ' ' :: shown value) :: shownMembers rest
termination_by structural members => members

end

/-- A value quoted for a message. -/
def quotedText (v : Value) : String :=
  String.ofList v.shown

/-- A value as a message says it: a text stands for itself. -/
def plainText : Value → String
  | .str s => s
  | v => v.quotedText

end Value

end SampleSchema
