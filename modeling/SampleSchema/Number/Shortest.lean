import SampleSchema.Number.Decimal
/-!
# The shortest numeral of a binary number

A binary number is written with the fewest significant digits that read back as the same
number; among the numerals of that length the nearest one is taken, and of two equally near
ones the one with the even last digit. The search runs over the grids of one to seventeen
digits and tries the two neighbours of the number on each grid, so that a hit reads back by
construction. Seventeen digits always suffice, and behind them stands the exact expansion,
which reads back as well.

The text of a number is positional while its first digit stands for a power of ten from
`10 ^ -4` to `10 ^ 15`, and has an exponent of at least two digits otherwise.
-/

namespace SampleSchema

namespace Magnitude

/-! ## Decimal grids -/

/-- The power of ten of the leading digit, for a magnitude that is not zero. -/
def leadingPower (x : Magnitude) : Int :=
  let one := unitsPerOne
  if one ≤ x.units then (Decimal.digitCount (x.units / one) : Int) - 1
  else -(Decimal.digitCount ((one - 1) / x.units) : Int)

/-- The quotient of the magnitude and `10 ^ power`. -/
def overPower (x : Magnitude) (power : Int) : Nat × Nat :=
  if 0 ≤ power then (x.units, unitsPerOne * Nat.pow 10 power.toNat)
  else (x.units * Nat.pow 10 (-power).toNat, unitsPerOne)

/-- The two neighbours of the magnitude among the multiples of `10 ^ power`, the nearer
one first, and of two equally near ones the even one. -/
def neighbours (x : Magnitude) (power : Int) : List Decimal :=
  let (num, den) := x.overPower power
  let below : Decimal := ⟨num / den, power⟩
  let above : Decimal := ⟨num / den + 1, power⟩
  let rest := num % den
  if 2 * rest < den ∨ (2 * rest = den ∧ num / den % 2 = 0) then [below, above]
  else [above, below]

/-- A numeral with `digits` significant digits that reads back as the magnitude. -/
def withDigits? (x : Magnitude) (digits : Nat) : Option Decimal :=
  (x.neighbours (x.leadingPower - (digits - 1))).find? fun d => d.nearest? = some x

/-- The magnitude written out in full. -/
def exactly (x : Magnitude) : Decimal :=
  ⟨x.units * Nat.pow 5 1074, -1074⟩

/-- The shortest numeral that reads back as the magnitude. -/
def shortest (x : Magnitude) : Decimal :=
  if x.mantissa = 0 then ⟨0, 0⟩
  else ((List.range 17).findSome? fun n => x.withDigits? (n + 1)).getD x.exactly

end Magnitude

namespace Decimal

/-- Drops the trailing zeros of the digits of a coefficient that is not zero. -/
def significant (d : Decimal) : List Char :=
  ((Nat.toDigits 10 d.coefficient).reverse.dropWhile (· == '0')).reverse

/-! ## Text -/

/-- The digits before and after the point, where `point` digits stand before it. -/
def positional (digits : List Char) (point : Int) : List Char :=
  if point ≤ 0 then
    '0' :: '.' :: (List.replicate (-point).toNat '0' ++ digits)
  else if digits.length ≤ point.toNat then
    digits ++ List.replicate (point.toNat - digits.length) '0' ++ ['.', '0']
  else
    digits.take point.toNat ++ '.' :: digits.drop point.toNat

/-- One digit before the point, the rest after it, and a signed exponent of at least two
digits. -/
def scientific (digits : List Char) (power : Int) : List Char :=
  let mantissa :=
    match digits with
    | first :: second :: rest => first :: '.' :: second :: rest
    | _ => digits
  let sign := if power < 0 then '-' else '+'
  let amount := Nat.toDigits 10 power.natAbs
  mantissa ++ 'e' :: sign :: (List.replicate (2 - amount.length) '0' ++ amount)

/-- The text of a numeral: positional for powers of ten from `-4` to `15`. -/
def text (d : Decimal) : List Char :=
  if d.coefficient = 0 then ['0', '.', '0']
  else
    let power : Int := (Nat.toDigits 10 d.coefficient).length - 1 + d.exponent
    if -4 ≤ power ∧ power < 16 then positional d.significant (power + 1)
    else scientific d.significant power

end Decimal

/-- The text of a binary number: its shortest numeral behind its sign, or a word. -/
def Binary64.text : Binary64 → List Char
  | .finite negative x => (if negative then ['-'] else []) ++ x.shortest.text
  | .infinite negative => (if negative then ['-'] else []) ++ ['i', 'n', 'f']
  | .nan => ['n', 'a', 'n']

end SampleSchema
