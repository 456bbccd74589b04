import SampleSchema.Json.Fault
import SampleSchema.Json.Numeral
import SampleSchema.Text.Halves
/-!
# Reading JSON texts

Values are read from the characters that are left. A fault is known by what is left at its
place; it is turned into an offset at the end, when the whole text is at hand again. Reading
goes on only while characters are consumed, so a number of steps proportional to the length
of the text always suffices, and `read` supplies it.

Two dialects are read. Samples and documents may begin with a mark of byte order, and have
finite numerals only. Settings files have no such mark, but know the words for infinities
and for the number that is none. A dialect also says which characters stand for halves of
surrogate pairs that are escaped alone.
-/

namespace SampleSchema.Json

/-- What a text may have besides the common grammar. -/
structure Dialect where
  allowsMark : Bool
  allowsNonFinite : Bool
  halves : Text.Halves := .unassigned

/-- The dialect of samples and documents. -/
def Dialect.strict : Dialect := { allowsMark := true, allowsNonFinite := false }

/-- The dialect of settings files. -/
def Dialect.lenient : Dialect := { allowsMark := false, allowsNonFinite := true }

/-- The dialect with other characters for halves of surrogate pairs. -/
def Dialect.withHalves (dialect : Dialect) (halves : Text.Halves) : Dialect :=
  { dialect with halves }

/-- A fault while reading: what is wrong, and how many characters are left there. -/
inductive Stop where
  | malformed (cause : Cause) (left : Nat)
  | tooManyDigits

/-- The four characters that may stand between tokens. -/
def isSpace (c : Char) : Bool :=
  c == ' ' || c == '\t' || c == '\n' || c == '\r'

def skipSpace (cs : List Char) : List Char :=
  cs.dropWhile isSpace

/-! ## Strings -/

/-- The value of a hexadecimal digit. -/
def hexValue? (c : Char) : Option Nat :=
  if '0' ≤ c ∧ c ≤ '9' then some (c.toNat - '0'.toNat)
  else if 'a' ≤ c ∧ c ≤ 'f' then some (c.toNat - 'a'.toNat + 10)
  else if 'A' ≤ c ∧ c ≤ 'F' then some (c.toNat - 'A'.toNat + 10)
  else none

/-- The number of four hexadecimal digits. -/
def hexUnit? (a b c d : Char) : Option Nat := do
  let a ← hexValue? a
  let b ← hexValue? b
  let c ← hexValue? c
  let d ← hexValue? d
  return ((a * 16 + b) * 16 + c) * 16 + d

def isHighSurrogate (unit : Nat) : Bool := 0xd800 ≤ unit && unit ≤ 0xdbff

def isLowSurrogate (unit : Nat) : Bool := 0xdc00 ≤ unit && unit ≤ 0xdfff

/-- The character of an escape with a single unit. Half of a surrogate pair is no character,
and the one that stands for it takes its place. -/
def unitChar (halves : Text.Halves) (unit : Nat) : Char :=
  if isHighSurrogate unit || isLowSurrogate unit then halves.char unit else Char.ofNat unit

/-- The character of a surrogate pair. -/
def pairChar (high low : Nat) : Char :=
  Char.ofNat (0x10000 + (high - 0xd800) * 0x400 + (low - 0xdc00))

/-- The character of a simple escape. -/
def simpleEscape? : Char → Option Char
  | '"' => some '"'
  | '\\' => some '\\'
  | '/' => some '/'
  | 'b' => some '\x08'
  | 'f' => some '\x0c'
  | 'n' => some '\n'
  | 'r' => some '\r'
  | 't' => some '\t'
  | _ => none

/-- The number of an escape with four hexadecimal digits. The text must go on behind them: an
escape at its very end counts as cut short. -/
def escapedUnit? (a b c d : Char) (rest : List Char) : Option Nat :=
  if rest.isEmpty then none else hexUnit? a b c d

/-- The low half of a surrogate pair, when `unit` is a high one and the escape that follows
it is a low one. An escape that follows a high half must be well formed. -/
def partner? (unit : Nat) (rest : List Char) : Except Stop (Option Nat) :=
  if isHighSurrogate unit then
    match rest with
    | '\\' :: 'u' :: a :: b :: c :: d :: more =>
      match escapedUnit? a b c d more with
      | some low => .ok (if isLowSurrogate low then some low else none)
      | none => .error (.malformed .badUnicodeEscape (more.length + 5))
    | '\\' :: 'u' :: more => .error (.malformed .badUnicodeEscape (more.length + 1))
    | _ => .ok none
  else .ok none

/-- The characters of a string behind its opening quote, and what follows the closing one.
`opening` is what was left at the opening quote: a string that is not closed is reported
there. A surrogate pair may be written as two escapes. -/
def scanString (halves : Text.Halves) (opening : Nat) :
    List Char → Except Stop (List Char × List Char)
  | [] => .error (.malformed .openString opening)
  | '"' :: rest => .ok ([], rest)
  | '\\' :: [] => .error (.malformed .openString opening)
  | '\\' :: 'u' :: a :: b :: c :: d :: rest =>
    match escapedUnit? a b c d rest with
    | none => .error (.malformed .badUnicodeEscape (rest.length + 5))
    | some unit =>
      match partner? unit rest, rest with
      | .error stop, _ => .error stop
      | .ok (some low), _ :: _ :: _ :: _ :: _ :: _ :: more =>
        (scanString halves opening more).map fun (cs, tail) => (pairChar unit low :: cs, tail)
      | .ok _, rest =>
        (scanString halves opening rest).map fun (cs, tail) => (unitChar halves unit :: cs, tail)
  | '\\' :: 'u' :: rest => .error (.malformed .badUnicodeEscape (rest.length + 1))
  | '\\' :: c :: rest =>
    match simpleEscape? c with
    | some escaped =>
      (scanString halves opening rest).map fun (cs, tail) => (escaped :: cs, tail)
    | none => .error (.malformed (.unknownEscape c) (rest.length + 2))
  | c :: rest =>
    if c.toNat < 0x20 then .error (.malformed (.controlCharacter c) (rest.length + 1))
    else (scanString halves opening rest).map fun (cs, tail) => (c :: cs, tail)

/-! ## Words -/

/-- What follows a word at the start of a text. -/
def afterWord? (word : List Char) (cs : List Char) : Option (List Char) :=
  if word.isPrefixOf cs then some (cs.drop word.length) else none

/-- The words of the common grammar and their values. -/
def words : List (List Char × Value) :=
  [("null".toList, .null), ("true".toList, .bool true), ("false".toList, .bool false)]

/-- The words for numbers that are not finite. -/
def nonFiniteWords : List (List Char × Value) :=
  [("NaN".toList, .float .nan), ("Infinity".toList, .float (.infinite false)),
   ("-Infinity".toList, .float (.infinite true))]

/-- The word at the start of a text. -/
def scanWord (dialect : Dialect) (cs : List Char) : Option (Value × List Char) :=
  let known := if dialect.allowsNonFinite then words ++ nonFiniteWords else words
  known.findSome? fun (word, value) => (afterWord? word cs).map fun rest => (value, rest)

/-- A word or a numeral. -/
def scanAtom (dialect : Dialect) (cs : List Char) : Except Stop (Value × List Char) :=
  match scanWord dialect cs with
  | some result => .ok result
  | none =>
    match Numeral.scan cs with
    | none => .error (.malformed .noValue cs.length)
    | some (numeral, rest) =>
      match numeral.value? with
      | some value => .ok (value, rest)
      | none => .error .tooManyDigits

/-! ## Values -/

mutual

/-- The value at the start of a text, and what follows it. -/
def readValue (dialect : Dialect) : Nat → List Char → Except Stop (Value × List Char)
  | 0, cs => .error (.malformed .noValue cs.length)
  | steps + 1, cs =>
    match cs with
    | '"' :: rest => do
      let (text, rest) ← scanString dialect.halves cs.length rest
      return (.str (String.ofList text), rest)
    | '[' :: rest =>
      match skipSpace rest with
      | [] => .error (.malformed .noValueOrBracket 0)
      | ']' :: rest => .ok (.list [], rest)
      | rest => do
        let (items, rest) ← readItems dialect steps rest
        return (.list items, rest)
    | '\x7b' :: rest =>
      match skipSpace rest with
      | [] => .error (.malformed .noNameOrBrace 0)
      | '\x7d' :: rest => .ok (.object [], rest)
      | rest => do
        let (members, rest) ← readMembers dialect steps rest
        return (.ofMembers members, rest)
    | cs => scanAtom dialect cs

/-- The items of an array up to its bracket. -/
def readItems (dialect : Dialect) : Nat → List Char → Except Stop (List Value × List Char)
  | 0, cs => .error (.malformed .noValue cs.length)
  | steps + 1, cs => do
    let (item, rest) ← readValue dialect steps cs
    match skipSpace rest with
    | ']' :: rest => return ([item], rest)
    | ',' :: rest =>
      let (items, rest) ← readItems dialect steps (skipSpace rest)
      return (item :: items, rest)
    | rest => .error (.malformed .noDelimiterOrBracket rest.length)

/-- The members of an object up to its brace, in the order of the text. -/
def readMembers (dialect : Dialect) :
    Nat → List Char → Except Stop (List (String × Value) × List Char)
  | 0, cs => .error (.malformed .noName cs.length)
  | steps + 1, cs =>
    match cs with
    | '"' :: rest => do
      let (name, rest) ← scanString dialect.halves cs.length rest
      match skipSpace rest with
      | ':' :: rest =>
        let (value, rest) ← readValue dialect steps (skipSpace rest)
        let member := (String.ofList name, value)
        match skipSpace rest with
        | '\x7d' :: rest => return ([member], rest)
        | ',' :: rest =>
          let (members, rest) ← readMembers dialect steps (skipSpace rest)
          return (member :: members, rest)
        | rest => .error (.malformed .noDelimiterOrBrace rest.length)
      | rest => .error (.malformed .noColon rest.length)
    | cs => .error (.malformed .noName cs.length)

end

/-! ## Whole texts -/

/-- Drops a mark of byte order, which may also stand there octet by octet. -/
def skipMark : List Char → List Char
  | '\ufeff' :: rest => rest
  | '\u00ef' :: '\u00bb' :: '\u00bf' :: rest => rest
  | cs => cs

/-- The fault of a text at what was left of it. -/
def Stop.toFault (text : List Char) : Stop → Fault
  | .malformed cause left =>
    .malformed cause (.ofOffset text (text.length - left)) (.ofOffset text text.length)
  | .tooManyDigits => .tooManyDigits

/-- The value of a text that has nothing but white space beside it. -/
def scanText (dialect : Dialect) (text : List Char) : Except Stop Value := do
  let start := if dialect.allowsMark then skipMark text else text
  let (value, rest) ← readValue dialect (2 * text.length + 2) (skipSpace start)
  match skipSpace rest with
  | [] => return value
  | rest => .error (.malformed .extraData rest.length)

/-- The value of a text. -/
def read (dialect : Dialect) (text : List Char) : Except Fault Value :=
  match scanText dialect text with
  | .ok value => .ok value
  | .error stop => .error (stop.toFault text)

end SampleSchema.Json
