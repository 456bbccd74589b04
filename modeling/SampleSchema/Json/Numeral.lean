import SampleSchema.Number.Decimal
import SampleSchema.Text.Digit
import SampleSchema.Value.Basic
/-!
# Numerals of a JSON text

A numeral has a sign, an integer part without leading zeros, and optionally a fraction and an
exponent. The longest numeral is taken: a point or an exponent mark that no digit follows is
not part of it. Without fraction and exponent it is an integer of any size up to the digit
limit, otherwise a binary number.
-/

namespace SampleSchema.Json

/-- The parts of a numeral, as digits. -/
structure Numeral where
  negative : Bool
  whole : List Char
  fraction : List Char
  exponent : Option (Bool × List Char)

/-- The number of decimal digits of ASCII. -/
def digitsValue (digits : List Char) : Nat :=
  digits.foldl (fun value c => 10 * value + (c.toNat - '0'.toNat)) 0

/-- Takes the digits at the start of a text. -/
def spanDigits (cs : List Char) : List Char × List Char :=
  (cs.takeWhile Char.isDigit, cs.dropWhile Char.isDigit)

/-- Taking digits loses nothing. -/
theorem spanDigits_append (cs : List Char) : (spanDigits cs).1 ++ (spanDigits cs).2 = cs :=
  List.takeWhile_append_dropWhile

theorem isDigit_of_mem_spanDigits {cs : List Char} :
    ∀ c ∈ (spanDigits cs).1, c.isDigit = true :=
  List.all_eq_true.mp List.all_takeWhile

/-- The integer part: a zero alone, or digits that start with another one. -/
def scanWhole : List Char → Option (List Char × List Char)
  | '0' :: rest => some (['0'], rest)
  | cs =>
    match spanDigits cs with
    | ([], _) => none
    | (digits, rest) => some (digits, rest)

/-- The fraction, empty when no digit follows the point. -/
def scanFraction : List Char → List Char × List Char
  | '.' :: rest =>
    match spanDigits rest with
    | ([], _) => ([], '.' :: rest)
    | (digits, tail) => (digits, tail)
  | cs => ([], cs)

/-- The sign of an exponent, and what follows it. -/
def scanSign : List Char → Bool × List Char
  | '-' :: rest => (true, rest)
  | '+' :: rest => (false, rest)
  | cs => (false, cs)

/-- The exponent, absent when no digit follows its mark and sign. -/
def scanExponent (cs : List Char) : Option (Bool × List Char) × List Char :=
  match cs with
  | mark :: rest =>
    if mark = 'e' ∨ mark = 'E' then
      let (negative, digits) := scanSign rest
      match spanDigits digits with
      | ([], _) => (none, cs)
      | (digits, tail) => (some (negative, digits), tail)
    else (none, cs)
  | [] => (none, cs)

/-- The numeral at the start of a text, and what follows it. -/
def Numeral.scan (cs : List Char) : Option (Numeral × List Char) :=
  let (negative, unsigned) :=
    match cs with
    | '-' :: rest => (true, rest)
    | _ => (false, cs)
  (scanWhole unsigned).map fun (whole, rest) =>
    let (fraction, rest) := scanFraction rest
    let (exponent, rest) := scanExponent rest
    (⟨negative, whole, fraction, exponent⟩, rest)

/-- The exponent as an integer, zero if there is none. -/
def Numeral.power (n : Numeral) : Int :=
  match n.exponent with
  | some (true, digits) => -(digitsValue digits : Int)
  | some (false, digits) => digitsValue digits
  | none => 0

/-- The numeral with its point moved behind the last digit. -/
def Numeral.toDecimal (n : Numeral) : Decimal :=
  ⟨digitsValue (n.whole ++ n.fraction), n.power - n.fraction.length⟩

/-- The value of a numeral; `none` for an integer of too many digits. -/
def Numeral.value? (n : Numeral) : Option Value :=
  if n.fraction.isEmpty && n.exponent.isNone then
    if Text.digitLimit < n.whole.length then none
    else
      let magnitude : Int := digitsValue n.whole
      some (.int (if n.negative then -magnitude else magnitude))
  else some (.float (n.toDecimal.toBinary64 n.negative))

end SampleSchema.Json
