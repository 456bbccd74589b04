/-!
# Binary numbers of sixty-four bits, as exact data

A fraction in a document is held as a binary number of sixty-four bits. Nothing here runs
floating point arithmetic: a finite number is a sign and a natural number of units, where
one unit is `2 ^ -1074`, the smallest positive number of the format. Equality, integrality
and the comparison with integers are then statements about `Nat` and `Int`.

Each finite magnitude has exactly one representation: the mantissa has fifty-three bits
unless the shift is zero.
-/

namespace SampleSchema

/-! ## Magnitudes -/

/-- The pairs of mantissa and shift that stand for a magnitude: at most fifty-three bits,
all of them in use above the smallest shift, and a shift that stays below overflow. -/
def Magnitude.Canonical (mantissa shift : Nat) : Prop :=
  mantissa < Nat.pow 2 53 ∧ shift ≤ 2045 ∧ (shift = 0 ∨ Nat.pow 2 52 ≤ mantissa)

instance (mantissa shift : Nat) : Decidable (Magnitude.Canonical mantissa shift) :=
  inferInstanceAs (Decidable (_ ∧ _ ∧ _))

/-- A finite magnitude, `mantissa * 2 ^ shift` units of `2 ^ -1074`. -/
structure Magnitude where
  mantissa : Nat
  shift : Nat
  canonical : Magnitude.Canonical mantissa shift
deriving DecidableEq

namespace Magnitude

/-- The number of units in one. -/
def unitsPerOne : Nat := Nat.pow 2 1074

def zero : Magnitude := ⟨0, 0, by decide⟩

/-- The magnitude as a number of units. -/
def units (x : Magnitude) : Nat := x.mantissa * Nat.pow 2 x.shift

/-- The magnitude with these parts, if the parts are canonical. -/
def ofParts? (mantissa shift : Nat) : Option Magnitude :=
  if h : Canonical mantissa shift then some ⟨mantissa, shift, h⟩ else none

end Magnitude

/-! ## Numbers -/

/-- A binary number of sixty-four bits. The sign of a finite number is kept for zero too. -/
inductive Binary64 where
  | finite (negative : Bool) (magnitude : Magnitude)
  | infinite (negative : Bool)
  | nan
deriving DecidableEq

namespace Binary64

/-- The signed number of units, of a finite number. -/
def units? : Binary64 → Option Int
  | .finite true x => some (-(x.units : Int))
  | .finite false x => some (x.units : Int)
  | _ => none

def isFinite : Binary64 → Bool
  | .finite .. => true
  | _ => false

/-- Zero of either sign. -/
def isZero : Binary64 → Bool
  | .finite _ x => x.mantissa == 0
  | _ => false

/-- Whether the number is finite and has no fraction. -/
def isIntegral (x : Binary64) : Bool :=
  match x.units? with
  | some n => n % Magnitude.unitsPerOne == 0
  | none => false

/-- Whether a finite or infinite number lies below zero. Zero itself does not, whatever its
sign. -/
def isNegative : Binary64 → Bool
  | .finite negative x => negative && x.mantissa != 0
  | .infinite negative => negative
  | .nan => false

/-- Equality of numbers: the two zeros are equal, and nothing equals a number that is not
one. -/
def same : Binary64 → Binary64 → Bool
  | .infinite a, .infinite b => a == b
  | x, y =>
    match x.units?, y.units? with
    | some m, some n => m == n
    | _, _ => false

/-- Exact equality with an integer, which need not be representable. -/
def sameInt (x : Binary64) (n : Int) : Bool :=
  match x.units? with
  | some m => m == n * Magnitude.unitsPerOne
  | none => false

end Binary64

end SampleSchema
