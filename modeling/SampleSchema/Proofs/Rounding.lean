import Mathlib.Tactic.Ring
import SampleSchema.Number.Shortest
/-!
# Rounding a numeral to a binary number

One amount has many numerals: `5`, `5.0` and `0.5e1` differ in coefficient and exponent. This
module says that the nearest binary number depends on the amount alone, and that the numeral with
the fewest digits, which is chosen for writing, is read back as the number that it was chosen for.

* `nearest?_eq_of_sameAmount`: numerals of one amount have one nearest number.
* `nearest?_shortest`: the shortest numeral of a magnitude has that magnitude as its nearest.
-/

namespace SampleSchema

/-! ## Quotients -/

theorem roundQuotient_mul_right (num den : Nat) {k : Nat} (hk : 0 < k) :
    roundQuotient (num * k) (den * k) = roundQuotient num den := by
  have hlt : ∀ a b : Nat, a * k < b * k ↔ a < b := fun _ _ => Nat.mul_lt_mul_right hk
  -- the rest is scaled with the divisor, so that it stays on its side of the half
  have hdouble : 2 * (num % den * k) = 2 * (num % den) * k := by ring
  unfold roundQuotient
  dsimp only
  rw [Nat.mul_div_mul_right num den hk, Nat.mul_mod_mul_right, hdouble]
  simp only [hlt]

theorem roundQuotient_exact (quotient : Nat) {den : Nat} (hden : 0 < den) :
    roundQuotient (quotient * den) den = quotient := by
  unfold roundQuotient
  dsimp only
  rw [Nat.mul_div_cancel quotient hden, Nat.mul_mod_left, Nat.mul_zero, if_pos hden]

namespace Magnitude

theorem ofRatio?_mul_right (num den : Nat) {k : Nat} (hk : 0 < k) :
    ofRatio? (num * k) (den * k) = ofRatio? num den := by
  have hround : ∀ shift, roundQuotient (num * k) (den * k * Nat.pow 2 shift) =
      roundQuotient num (den * Nat.pow 2 shift) := by
    intro shift
    rw [Nat.mul_right_comm, roundQuotient_mul_right _ _ hk]
  unfold ofRatio?
  dsimp only
  rw [Nat.mul_div_mul_right num den hk, hround]

/-- Equal quotients have one nearest magnitude. -/
theorem ofRatio?_congr {num den num' den' : Nat} (hden : 0 < den) (hden' : 0 < den')
    (h : num * den' = num' * den) : ofRatio? num den = ofRatio? num' den' := by
  rw [← ofRatio?_mul_right num den hden', ← ofRatio?_mul_right num' den' hden, h,
    Nat.mul_comm den den']

/-- The size of a magnitude gives its shift, because the mantissa uses all its bits. -/
theorem log2_units (x : Magnitude) : x.units.log2 - 52 = x.shift := by
  obtain ⟨mantissa, shift, hlt, hshift, hfull⟩ := x
  have hlt : mantissa < 2 ^ 53 := hlt
  show (mantissa * 2 ^ shift).log2 - 52 = shift
  rcases hfull with rfl | hfull
  · rw [Nat.pow_zero, Nat.mul_one]
    rcases Nat.eq_zero_or_pos mantissa with rfl | hpos
    · rfl
    · have hlog : mantissa.log2 < 53 := (Nat.log2_lt (by omega)).mpr hlt
      omega
  · have hfull : 2 ^ 52 ≤ mantissa := hfull
    have hpos : 0 < 2 ^ shift := Nat.two_pow_pos shift
    have hlow : 2 ^ (52 + shift) ≤ mantissa * 2 ^ shift := by
      rw [Nat.pow_add]
      exact Nat.mul_le_mul_right _ hfull
    have hhigh : mantissa * 2 ^ shift < 2 ^ (52 + shift + 1) := by
      rw [show 52 + shift + 1 = 53 + shift by omega, Nat.pow_add]
      exact Nat.mul_lt_mul_of_pos_right hlt hpos
    have hlog : (mantissa * 2 ^ shift).log2 = 52 + shift :=
      (Nat.log2_eq_iff (by omega)).mpr ⟨hlow, hhigh⟩
    omega

/-- A magnitude is its own nearest one. -/
theorem ofRatio?_units (x : Magnitude) : ofRatio? x.units 1 = some x := by
  have hlog := log2_units x
  obtain ⟨mantissa, shift, hcanonical⟩ := x
  have hpos : 0 < Nat.pow 2 shift := Nat.two_pow_pos shift
  unfold ofRatio?
  dsimp only
  rw [Nat.div_one, hlog, Nat.one_mul, units, roundQuotient_exact mantissa hpos,
    if_pos hcanonical.1, ofParts?, dif_pos hcanonical]

end Magnitude

namespace Decimal

/-! ## Numerals of one amount -/

/-- The numeral with further zeros behind its coefficient. -/
def scaled (d : Decimal) (zeros : Nat) : Decimal :=
  ⟨d.coefficient * 10 ^ zeros, d.exponent - zeros⟩

/-- Two numerals that become one with further zeros. -/
def SameAmount (d e : Decimal) : Prop :=
  ∃ m n : Nat, d.scaled m = e.scaled n

theorem sameAmount_of_exponent_eq {coefficient : Nat} {power power' : Int}
    (h : power = power') : SameAmount ⟨coefficient, power⟩ ⟨coefficient, power'⟩ :=
  ⟨0, 0, by rw [h]⟩

theorem nearest?_of_coefficient_eq_zero {d : Decimal} (hd : d.coefficient = 0) :
    d.nearest? = some .zero := by
  rw [nearest?, if_pos hd]

theorem lt_digitCount {n k : Nat} (hn : n ≠ 0) (hk : 0 < k) (h : Nat.pow 10 k ≤ n) :
    k < digitCount n := by
  rw [digitCount, if_neg hn, ← Nat.not_le, Nat.length_toDigits_le_iff (by decide) hk]
  exact Nat.not_lt.mpr h

theorem digitCount_le {n k : Nat} (hk : 0 < k) (h : n < Nat.pow 10 k) : digitCount n ≤ k := by
  rw [digitCount]
  split
  · exact Nat.zero_le k
  · exact (Nat.length_toDigits_le_iff (by decide) hk).mpr h

theorem digitCount_mul_ten {n : Nat} (hn : n ≠ 0) : digitCount (10 * n) = digitCount n + 1 := by
  have hdigits := Nat.toDigits_append_toDigits (show 1 < 10 by decide) (Nat.pos_of_ne_zero hn)
    (show 0 < 10 by decide)
  rw [Nat.add_zero] at hdigits
  rw [digitCount, digitCount, if_neg (by omega), if_neg hn, ← hdigits, List.length_append,
    Nat.toDigits_zero, List.length_singleton]

theorem digitCount_scaled {d : Decimal} (hd : d.coefficient ≠ 0) (zeros : Nat) :
    digitCount (d.scaled zeros).coefficient = digitCount d.coefficient + zeros := by
  show digitCount (d.coefficient * 10 ^ zeros) = _
  induction zeros with
  | zero => rw [Nat.pow_zero, Nat.mul_one, Nat.add_zero]
  | succ zeros ih =>
    have hpos : 0 < d.coefficient * 10 ^ zeros :=
      Nat.mul_pos (Nat.pos_of_ne_zero hd) (Nat.pow_pos (by decide))
    rw [show d.coefficient * 10 ^ (zeros + 1) = 10 * (d.coefficient * 10 ^ zeros) by ring,
      digitCount_mul_ten (by omega), ih]
    omega

/-- Further zeros scale both sides of the quotient alike. -/
theorem ratio_scaled (d : Decimal) (zeros : Nat) :
    (d.scaled zeros).ratio.1 * d.ratio.2 = d.ratio.1 * (d.scaled zeros).ratio.2 := by
  obtain ⟨coefficient, exponent⟩ := d
  unfold ratio scaled
  dsimp only
  by_cases hscaled : 0 ≤ exponent - zeros
  · -- the exponent is large enough to take all zeros back
    have hexponent : 0 ≤ exponent := by omega
    have htaken : exponent.toNat = zeros + (exponent - zeros).toNat := by omega
    rw [if_pos hscaled, if_pos hexponent, htaken]
    show coefficient * 10 ^ zeros * 10 ^ (exponent - zeros).toNat * 1 =
      coefficient * 10 ^ (zeros + (exponent - zeros).toNat) * 1
    ring
  · rw [if_neg hscaled]
    by_cases hexponent : 0 ≤ exponent
    · -- some zeros are taken back, the others go below the line
      have hzeros : zeros = exponent.toNat + (-(exponent - zeros)).toNat := by omega
      rw [if_pos hexponent]
      show coefficient * 10 ^ zeros * 1 =
        coefficient * 10 ^ exponent.toNat * 10 ^ (-(exponent - zeros)).toNat
      conv_lhs => rw [hzeros]
      ring
    · have hbelow : (-(exponent - zeros)).toNat = (-exponent).toNat + zeros := by omega
      rw [if_neg hexponent, hbelow]
      show coefficient * 10 ^ zeros * 10 ^ (-exponent).toNat =
        coefficient * 10 ^ ((-exponent).toNat + zeros)
      ring

theorem ratio_den_pos (d : Decimal) : 0 < d.ratio.2 := by
  unfold ratio
  split
  · exact Nat.one_pos
  · exact Nat.pow_pos (by decide)

theorem nearest?_scaled (d : Decimal) (zeros : Nat) :
    (d.scaled zeros).nearest? = d.nearest? := by
  have hpos : 0 < 10 ^ zeros := Nat.pow_pos (by decide)
  have hzero : (d.scaled zeros).coefficient = 0 ↔ d.coefficient = 0 := by
    show d.coefficient * 10 ^ zeros = 0 ↔ _
    rw [Nat.mul_eq_zero]
    omega
  by_cases hd : d.coefficient = 0
  · rw [nearest?_of_coefficient_eq_zero hd, nearest?_of_coefficient_eq_zero (hzero.mpr hd)]
  · -- the size is the same, and so is the quotient
    have hsize : (digitCount (d.scaled zeros).coefficient : Int) + (d.scaled zeros).exponent =
        digitCount d.coefficient + d.exponent := by
      rw [digitCount_scaled hd]
      show ((digitCount d.coefficient + zeros : Nat) : Int) + (d.exponent - zeros) = _
      omega
    have hratio : Magnitude.ofRatio? ((d.scaled zeros).ratio.1 * Magnitude.unitsPerOne)
          (d.scaled zeros).ratio.2 =
        Magnitude.ofRatio? (d.ratio.1 * Magnitude.unitsPerOne) d.ratio.2 := by
      refine Magnitude.ofRatio?_congr (ratio_den_pos _) (ratio_den_pos d) ?_
      rw [Nat.mul_right_comm, ratio_scaled, Nat.mul_right_comm]
    rw [nearest?, nearest?, if_neg hd, if_neg (mt hzero.mp hd)]
    dsimp only
    rw [hsize, hratio]

theorem nearest?_eq_of_sameAmount {d e : Decimal} (h : d.SameAmount e) :
    d.nearest? = e.nearest? := by
  obtain ⟨m, n, hscaled⟩ := h
  rw [← nearest?_scaled d m, hscaled, nearest?_scaled]

end Decimal

namespace Magnitude

/-! ## The numeral that is written -/

theorem units_pos {x : Magnitude} (hx : x.mantissa ≠ 0) : 0 < x.units :=
  Nat.mul_pos (Nat.pos_of_ne_zero hx) (Nat.two_pow_pos _)

/-- A bound on what a mantissa and a shift can make. -/
theorem units_lt (x : Magnitude) {shift : Nat} (hshift : x.shift ≤ shift) :
    x.units < Nat.pow 2 53 * Nat.pow 2 shift := by
  have hpow : Nat.pow 2 x.shift ≤ Nat.pow 2 shift := Nat.pow_le_pow_right (by decide) hshift
  have hpos : 0 < Nat.pow 2 x.shift := Nat.two_pow_pos x.shift
  calc x.units < Nat.pow 2 53 * Nat.pow 2 x.shift :=
        Nat.mul_lt_mul_of_pos_right x.canonical.1 hpos
    _ ≤ Nat.pow 2 53 * Nat.pow 2 shift := Nat.mul_le_mul_left _ hpow

/-- The powers of five and two above the line make the power of ten below it. -/
theorem ofRatio?_expansion (x : Magnitude) (n : Nat) :
    ofRatio? (x.units * Nat.pow 5 n * Nat.pow 2 n) (Nat.pow 10 n) = some x := by
  have hpos : 0 < Nat.pow 10 n := Nat.pow_pos (by decide)
  have hten : Nat.pow 5 n * Nat.pow 2 n = Nat.pow 10 n := (Nat.mul_pow 5 2 n).symm
  have hscaled := ofRatio?_mul_right x.units 1 hpos
  rw [Nat.one_mul] at hscaled
  rw [Nat.mul_assoc, hten, hscaled, ofRatio?_units]

/-- How many digits the exact expansion of a magnitude has, between bounds that hold for the
smallest and the largest one. -/
theorem digitCount_expansion {x : Magnitude} (hx : x.mantissa ≠ 0) {n shift low high : Nat}
    (hshift : x.shift ≤ shift) (hlow : Nat.pow 10 low ≤ Nat.pow 5 n) (hlowpos : 0 < low)
    (hhigh : Nat.pow 2 53 * Nat.pow 2 shift * Nat.pow 5 n ≤ Nat.pow 10 high) (hhighpos : 0 < high) :
    low < Decimal.digitCount (x.units * Nat.pow 5 n) ∧
      Decimal.digitCount (x.units * Nat.pow 5 n) ≤ high := by
  have hpos : 0 < Nat.pow 5 n := Nat.pow_pos (by decide)
  have hne : x.units * Nat.pow 5 n ≠ 0 := Nat.ne_of_gt (Nat.mul_pos (units_pos hx) hpos)
  constructor
  · exact Decimal.lt_digitCount hne hlowpos
      (Nat.le_trans hlow (Nat.le_mul_of_pos_left _ (units_pos hx)))
  · exact Decimal.digitCount_le hhighpos
      (Nat.lt_of_lt_of_le (Nat.mul_lt_mul_of_pos_right (units_lt x hshift) hpos) hhigh)

theorem nearest?_exactly {x : Magnitude} (hx : x.mantissa ≠ 0) : x.exactly.nearest? = some x := by
  -- under names of their own, the large powers are not worked out
  obtain ⟨n, hn⟩ : ∃ n, n = 1074 := ⟨_, rfl⟩
  obtain ⟨shift, hshift⟩ : ∃ shift, shift = 2045 := ⟨_, rfl⟩
  obtain ⟨low, hlow⟩ : ∃ low, low = 750 := ⟨_, rfl⟩
  obtain ⟨high, hhigh⟩ : ∃ high, high = 1383 := ⟨_, rfl⟩
  have hfive : Nat.pow 10 low ≤ Nat.pow 5 n := by
    subst hn hlow
    decide +kernel
  have hlargest : Nat.pow 2 53 * Nat.pow 2 shift * Nat.pow 5 n ≤ Nat.pow 10 high := by
    subst hn hshift hhigh
    decide +kernel
  have hbounds := digitCount_expansion hx (hshift ▸ x.canonical.2.1) hfive (by omega) hlargest
    (by omega)
  have hne : x.units * Nat.pow 5 n ≠ 0 := by
    intro hzero
    rw [hzero] at hbounds
    exact absurd hbounds.1 (Nat.not_lt_zero low)
  have htoNat : (-(-1074 : Int)).toNat = n := by
    rw [hn]
    decide
  unfold exactly Decimal.nearest? Decimal.ratio unitsPerOne
  rw [← hn]
  dsimp only
  rw [if_neg (show ¬ (0 : Int) ≤ -1074 by decide), htoNat]
  dsimp only
  rw [ofRatio?_expansion x n, if_neg hne, if_neg (by omega), if_neg (by omega)]

theorem eq_zero_of_mantissa_eq_zero {x : Magnitude} (hx : x.mantissa = 0) : x = .zero := by
  obtain ⟨mantissa, shift, hcanonical⟩ := x
  obtain rfl : mantissa = 0 := hx
  obtain rfl : shift = 0 := by
    rcases hcanonical.2.2 with hshift | hfull
    · exact hshift
    · exact absurd hfull (by decide)
  rfl

/-- The numeral that is written for a magnitude is read back as that magnitude. -/
theorem nearest?_shortest (x : Magnitude) : x.shortest.nearest? = some x := by
  unfold shortest
  split
  · rename_i hzero
    rw [eq_zero_of_mantissa_eq_zero hzero]
    rfl
  · rename_i hx
    cases hfound : (List.range 17).findSome? fun n => x.withDigits? (n + 1) with
    | none => exact nearest?_exactly hx
    | some d =>
      -- a numeral is only taken if it reads back
      obtain ⟨n, -, hd⟩ := List.exists_of_findSome?_eq_some hfound
      rw [withDigits?] at hd
      have hreads := List.find?_some hd
      rw [decide_eq_true_eq] at hreads
      exact hreads

end Magnitude

end SampleSchema
