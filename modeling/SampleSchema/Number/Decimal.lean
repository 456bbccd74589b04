import SampleSchema.Number.Binary64
/-!
# Decimal numerals and their nearest binary numbers

A decimal numeral is a natural coefficient and a power of ten. Reading one gives the binary
number nearest to it, a tie going to the even mantissa, and an infinity when the nearest
number would need a larger shift than the format has. All of it is exact: a numeral is a
quotient of natural numbers, and one division decides.
-/

namespace SampleSchema

/-- The numeral `coefficient * 10 ^ exponent`. -/
structure Decimal where
  coefficient : Nat
  exponent : Int
deriving DecidableEq

/-- The quotient rounded to the nearest natural number, a tie going to the even one. -/
def roundQuotient (num den : Nat) : Nat :=
  let quotient := num / den
  let rest := num % den
  if 2 * rest < den then quotient
  else if den < 2 * rest then quotient + 1
  else if quotient % 2 = 0 then quotient
  else quotient + 1

/-- The magnitude nearest to `num / den` units, and `none` on overflow. The shift is the
one that leaves fifty-three bits before the rounding; rounding up to `2 ^ 53` moves to the
next shift. -/
def Magnitude.ofRatio? (num den : Nat) : Option Magnitude :=
  let shift := (num / den).log2 - 52
  let mantissa := roundQuotient num (den * Nat.pow 2 shift)
  if mantissa < Nat.pow 2 53 then ofParts? mantissa shift
  else ofParts? (Nat.pow 2 52) (shift + 1)

namespace Decimal

/-- The numeral as a quotient of natural numbers. -/
def ratio (d : Decimal) : Nat × Nat :=
  if 0 ≤ d.exponent then (d.coefficient * Nat.pow 10 d.exponent.toNat, 1)
  else (d.coefficient, Nat.pow 10 (-d.exponent).toNat)

/-- The number of decimal digits, none for zero. -/
def digitCount (n : Nat) : Nat :=
  if n = 0 then 0 else (Nat.toDigits 10 n).length

/-- The nearest magnitude, and `none` on overflow. A numeral with a huge power of ten is
settled by its size alone: from `10 ^ 309` on everything overflows, and below `10 ^ -324`
everything is nearer to zero than to the smallest unit. -/
def nearest? (d : Decimal) : Option Magnitude :=
  let size : Int := digitCount d.coefficient + d.exponent
  if d.coefficient = 0 then some .zero
  else if 310 ≤ size then none
  else if size ≤ -324 then some .zero
  else
    let (num, den) := d.ratio
    Magnitude.ofRatio? (num * Magnitude.unitsPerOne) den

/-- The nearest binary number with the given sign. -/
def toBinary64 (negative : Bool) (d : Decimal) : Binary64 :=
  match d.nearest? with
  | some x => .finite negative x
  | none => .infinite negative

end Decimal

end SampleSchema
