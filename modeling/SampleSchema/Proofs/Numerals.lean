import SampleSchema.Json.Printer
import SampleSchema.Json.Numeral
import SampleSchema.Proofs.Rounding
import SampleSchema.Text.Digit
/-!
# Reading numerals back

Integers and binary numbers are written in different ways, but both as numerals: a sign, digits
without leading zeros, and perhaps a fraction and an exponent. Here is that the text of a number is
read back as that number, whatever follows it, as long as no numeral goes on with it.

* `Numeral.spelled` is the text of a numeral, and `scan_spelled` reads any well-formed one back.
* `exists_spelled_text` finds the numeral that the text of a decimal number spells; it has the
  amount of that number, so `nearest?_shortest` tells what it is read as.
-/

namespace SampleSchema

namespace Json

/-! ## The text of a numeral -/

/-- What no numeral goes on with. -/
def EndsNumeral (rest : List Char) : Prop :=
  ∀ c ∈ rest.head?, c.isDigit = false ∧ c ≠ '.' ∧ c ≠ 'e' ∧ c ≠ 'E'

theorem endsNumeral_nil : EndsNumeral [] := nofun

theorem endsNumeral_cons {c : Char} {rest : List Char}
    (h : c.isDigit = false ∧ c ≠ '.' ∧ c ≠ 'e' ∧ c ≠ 'E') : EndsNumeral (c :: rest) := by
  intro d hd
  obtain rfl := Option.some.inj hd
  exact h

/-- Digits of a positive number: the first one is not zero. -/
def LeadsNonzero (digits : List Char) : Prop :=
  ∃ first later, digits = first :: later ∧ first ≠ '0'

namespace Numeral

/-- The sign of a negative number. -/
def signText (negative : Bool) : List Char :=
  if negative then ['-'] else []

/-- A fraction behind its point. -/
def fractionText (fraction : List Char) : List Char :=
  if fraction.isEmpty then [] else '.' :: fraction

/-- An exponent with its mark and sign. -/
def exponentText : Option (Bool × List Char) → List Char
  | none => []
  | some (negative, digits) => 'e' :: (if negative then '-' else '+') :: digits

/-- The text of a numeral. -/
def spelled (n : Numeral) : List Char :=
  signText n.negative ++ (n.whole ++ (fractionText n.fraction ++ exponentText n.exponent))

/-- The parts of the numeral are digits, an exponent has some, and the integer part is not led by a
zero unless it is one. -/
structure WellFormed (n : Numeral) : Prop where
  whole : ∀ c ∈ n.whole, c.isDigit = true
  leading : n.whole = ['0'] ∨ LeadsNonzero n.whole
  fraction : ∀ c ∈ n.fraction, c.isDigit = true
  exponent : ∀ negative digits, n.exponent = some (negative, digits) →
    digits ≠ [] ∧ ∀ c ∈ digits, c.isDigit = true

end Numeral

/-! ## Reading it back -/

theorem spanDigits_of_digits {digits rest : List Char} (hdigits : ∀ c ∈ digits, c.isDigit = true)
    (hrest : ∀ c ∈ rest.head?, c.isDigit = false) :
    spanDigits (digits ++ rest) = (digits, rest) := by
  have htake : rest.takeWhile Char.isDigit = [] ∧ rest.dropWhile Char.isDigit = rest := by
    cases rest with
    | nil => exact ⟨rfl, rfl⟩
    | cons c rest =>
      have hc : c.isDigit = false := hrest c rfl
      simp [hc]
  rw [spanDigits, List.takeWhile_append_of_pos hdigits, List.dropWhile_append_of_pos hdigits,
    htake.1, htake.2, List.append_nil]

theorem scanWhole_of_digits {whole rest : List Char} (hdigits : ∀ c ∈ whole, c.isDigit = true)
    (hleading : whole = ['0'] ∨ LeadsNonzero whole)
    (hrest : ∀ c ∈ rest.head?, c.isDigit = false) :
    scanWhole (whole ++ rest) = some (whole, rest) := by
  have hspan := spanDigits_of_digits hdigits hrest
  rcases hleading with rfl | ⟨first, later, rfl, hfirst⟩
  · rfl
  · unfold scanWhole
    split
    · rename_i heq
      exact absurd (List.cons.inj heq).1 hfirst
    · rw [hspan]

theorem scanFraction_fractionText {fraction rest : List Char}
    (hdigits : ∀ c ∈ fraction, c.isDigit = true)
    (hrest : ∀ c ∈ rest.head?, c.isDigit = false ∧ c ≠ '.') :
    scanFraction (Numeral.fractionText fraction ++ rest) = (fraction, rest) := by
  have hspan := spanDigits_of_digits hdigits fun c hc => (hrest c hc).1
  cases fraction with
  | nil =>
    show scanFraction rest = ([], rest)
    unfold scanFraction
    split
    · exact absurd rfl (hrest '.' rfl).2
    · rfl
  | cons first later =>
    show scanFraction ('.' :: (first :: later ++ rest)) = _
    simp only [scanFraction, hspan]

theorem scanExponent_exponentText {exponent : Option (Bool × List Char)} {rest : List Char}
    (hexponent : ∀ negative digits, exponent = some (negative, digits) →
      digits ≠ [] ∧ ∀ c ∈ digits, c.isDigit = true)
    (hrest : ∀ c ∈ rest.head?, c.isDigit = false ∧ c ≠ 'e' ∧ c ≠ 'E') :
    scanExponent (Numeral.exponentText exponent ++ rest) = (exponent, rest) := by
  cases exponent with
  | none =>
    show scanExponent rest = (none, rest)
    cases rest with
    | nil => rfl
    | cons c rest =>
      obtain ⟨-, hlower, hupper⟩ := hrest c rfl
      rw [scanExponent, if_neg (by simp [hlower, hupper])]
  | some exponent =>
    obtain ⟨negative, digits⟩ := exponent
    obtain ⟨hne, hdigits⟩ := hexponent negative digits rfl
    have hspan := spanDigits_of_digits hdigits fun c hc => (hrest c hc).1
    have hsign : scanSign ((if negative then '-' else '+') :: (digits ++ rest)) =
        (negative, digits ++ rest) := by
      cases negative <;> rfl
    show scanExponent ('e' :: (if negative then '-' else '+') :: (digits ++ rest)) = _
    rw [scanExponent, if_pos (.inl rfl), hsign]
    dsimp only
    rw [hspan]
    cases digits with
    | nil => exact absurd rfl hne
    | cons first later => rfl

theorem scan_signText (negative : Bool) {cs : List Char} (hcs : ∀ rest, cs ≠ '-' :: rest) :
    Numeral.scan (Numeral.signText negative ++ cs) =
      (scanWhole cs).map fun (whole, rest) =>
        let (fraction, rest) := scanFraction rest
        let (exponent, rest) := scanExponent rest
        (⟨negative, whole, fraction, exponent⟩, rest) := by
  cases negative with
  | true => rfl
  | false =>
    show Numeral.scan cs = _
    unfold Numeral.scan
    split
    rename_i negative unsigned heq
    split at heq
    · rename_i rest
      exact absurd rfl (hcs rest)
    · obtain ⟨rfl, rfl⟩ := Prod.mk.inj heq
      rfl

theorem ne_minus_of_digits {whole rest : List Char} (hdigits : ∀ c ∈ whole, c.isDigit = true)
    (hne : whole ≠ []) (tail : List Char) : whole ++ rest ≠ '-' :: tail := by
  cases whole with
  | nil => exact absurd rfl hne
  | cons first later =>
    intro heq
    have hfirst := hdigits first List.mem_cons_self
    rw [(List.cons.inj heq).1] at hfirst
    exact absurd hfirst (by decide)

theorem Numeral.WellFormed.whole_ne_nil {n : Numeral} (hn : n.WellFormed) : n.whole ≠ [] := by
  rcases hn.leading with hzero | ⟨first, later, hwhole, -⟩
  · rw [hzero]
    exact List.cons_ne_nil _ _
  · rw [hwhole]
    exact List.cons_ne_nil _ _

theorem head?_exponentText_append (exponent : Option (Bool × List Char)) {rest : List Char}
    (hrest : EndsNumeral rest) :
    ∀ c ∈ (Numeral.exponentText exponent ++ rest).head?, c.isDigit = false ∧ c ≠ '.' := by
  intro c hc
  cases exponent with
  | none => exact ⟨(hrest c hc).1, (hrest c hc).2.1⟩
  | some exponent =>
    obtain rfl : 'e' = c := Option.some.inj hc
    decide

/-- A numeral is read back, up to a text that it does not go on with. -/
theorem scan_spelled {n : Numeral} (hn : n.WellFormed) {rest : List Char}
    (hrest : EndsNumeral rest) : Numeral.scan (n.spelled ++ rest) = some (n, rest) := by
  have hmark := head?_exponentText_append n.exponent hrest
  -- behind the integer part stands a point, a mark or the rest, and none of them is a digit
  have hpoint : ∀ c ∈ (Numeral.fractionText n.fraction ++
      (Numeral.exponentText n.exponent ++ rest)).head?, c.isDigit = false := by
    intro c hc
    cases hfraction : n.fraction with
    | nil =>
      rw [hfraction] at hc
      exact (hmark c hc).1
    | cons first later =>
      rw [hfraction] at hc
      obtain rfl : '.' = c := Option.some.inj hc
      decide
  rw [Numeral.spelled, List.append_assoc, List.append_assoc, List.append_assoc,
    scan_signText n.negative (ne_minus_of_digits hn.whole hn.whole_ne_nil),
    scanWhole_of_digits hn.whole hn.leading hpoint, Option.map_some]
  dsimp only
  rw [scanFraction_fractionText hn.fraction hmark]
  dsimp only
  rw [scanExponent_exponentText hn.exponent fun c hc =>
    ⟨(hrest c hc).1, (hrest c hc).2.2.1, (hrest c hc).2.2.2⟩]

/-! ## Digits -/

theorem digitsValue_toDigits (n : Nat) : digitsValue (Nat.toDigits 10 n) = n :=
  Nat.ofDigitChars_ten_toDigits

theorem digitsValue_append (digits more : List Char) :
    digitsValue (digits ++ more) = 10 ^ more.length * digitsValue digits + digitsValue more :=
  (Nat.ofDigitChars_append 0).trans Nat.ofDigitChars_eq_ofDigitChars_zero

theorem digitsValue_replicate_zero (zeros : Nat) : digitsValue (List.replicate zeros '0') = 0 :=
  Nat.ofDigitChars_replicate_zero.trans (Nat.mul_zero _)

theorem isDigit_of_mem_toDigits {n : Nat} : ∀ c ∈ Nat.toDigits 10 n, c.isDigit = true :=
  fun _ hc => Nat.isDigit_of_mem_toDigits (by decide) (by decide) hc

theorem isDigit_of_mem_zeros {zeros : Nat} : ∀ c ∈ List.replicate zeros '0', c.isDigit = true := by
  intro c hc
  rw [(List.mem_replicate.mp hc).2]
  rfl

theorem isDigit_of_mem_zero : ∀ c ∈ ['0'], c.isDigit = true :=
  List.forall_mem_singleton.mpr rfl

theorem digitsValue_lt {digits : List Char} (hdigits : ∀ c ∈ digits, c.isDigit = true) :
    digitsValue digits < 10 ^ digits.length := by
  induction digits with
  | nil => exact Nat.one_pos
  | cons c rest ih =>
    obtain ⟨hc, hrest⟩ := List.forall_mem_cons.mp hdigits
    have hdigit : digitsValue [c] ≤ 9 := by
      have hbounds := Text.isDigit_iff_bounds.mp hc
      show 10 * 0 + (c.toNat - 48) ≤ 9
      omega
    have hbefore : digitsValue (c :: rest) =
        10 ^ rest.length * digitsValue [c] + digitsValue rest := digitsValue_append [c] rest
    calc digitsValue (c :: rest)
        < 10 ^ rest.length * digitsValue [c] + 10 ^ rest.length := by
          rw [hbefore]
          exact Nat.add_lt_add_left (ih hrest) _
      _ = 10 ^ rest.length * (digitsValue [c] + 1) := (Nat.mul_succ _ _).symm
      _ ≤ 10 ^ rest.length * 10 := Nat.mul_le_mul_left _ (Nat.succ_le_succ hdigit)
      _ = 10 ^ (c :: rest).length := (Nat.pow_succ _ _).symm

theorem isDigit_of_scanWhole {cs whole rest : List Char} (h : scanWhole cs = some (whole, rest)) :
    ∀ c ∈ whole, c.isDigit = true := by
  unfold scanWhole at h
  split at h
  · obtain ⟨rfl, -⟩ := Prod.mk.inj (Option.some.inj h)
    exact isDigit_of_mem_zero
  · split at h
    · exact nomatch h
    · rename_i digits tail _ hspan
      obtain ⟨rfl, -⟩ := Prod.mk.inj (Option.some.inj h)
      have hdigits : digits = (spanDigits cs).1 := by rw [hspan]
      rw [hdigits]
      exact isDigit_of_mem_spanDigits

theorem isDigit_whole_of_scan {cs rest : List Char} {n : Numeral}
    (h : Numeral.scan cs = some (n, rest)) : ∀ c ∈ n.whole, c.isDigit = true := by
  unfold Numeral.scan at h
  obtain ⟨⟨whole, tail⟩, hwhole, h⟩ := Option.map_eq_some_iff.mp h
  obtain ⟨rfl, -⟩ := Prod.mk.inj h
  exact isDigit_of_scanWhole hwhole

theorem leadsNonzero_toDigits {n : Nat} (hn : n ≠ 0) : LeadsNonzero (Nat.toDigits 10 n) := by
  induction n using Nat.strongRecOn with
  | ind n ih =>
    rw [Nat.toDigits_eq_if (by decide)]
    split
    · rename_i hlt
      have hdigit : ∀ n < 10, n ≠ 0 → Nat.digitChar n ≠ '0' := by decide
      exact ⟨Nat.digitChar n, [], rfl, hdigit n hlt hn⟩
    · -- the first digit is the one of the number without its last digit
      rename_i hge
      obtain ⟨first, later, hdigits, hfirst⟩ := ih (n / 10) (by omega) (by omega)
      rw [hdigits]
      exact ⟨first, later ++ [Nat.digitChar (n % 10)], rfl, hfirst⟩

/-! ## Integers -/

/-- The text of an integer spells a numeral that is read as the integer. -/
theorem exists_spelled_printInt {n : Int} {cs : List Char} (h : printInt n = .ok cs) :
    ∃ numeral : Numeral, numeral.WellFormed ∧ numeral.spelled = cs ∧
      numeral.value? = some (.int n) := by
  unfold printInt at h
  dsimp only at h
  split at h
  · exact nomatch h
  · rename_i hlimit
    obtain rfl := Except.ok.inj h
    refine ⟨⟨decide (n < 0), Nat.toDigits 10 n.natAbs, [], none⟩, ⟨?_, ?_, nofun, nofun⟩, ?_, ?_⟩
    · exact isDigit_of_mem_toDigits
    · by_cases hzero : n.natAbs = 0
      · left
        show Nat.toDigits 10 n.natAbs = ['0']
        rw [hzero]
        rfl
      · exact .inr (leadsNonzero_toDigits hzero)
    · by_cases hneg : n < 0
      · simp [Numeral.spelled, Numeral.signText, Numeral.fractionText, Numeral.exponentText, hneg]
      · simp [Numeral.spelled, Numeral.signText, Numeral.fractionText, Numeral.exponentText, hneg]
    · have hvalue := digitsValue_toDigits n.natAbs
      have hint : ([] : List Char).isEmpty && (none : Option (Bool × List Char)).isNone := rfl
      rw [Numeral.value?, if_pos hint, if_neg hlimit, hvalue]
      by_cases hneg : n < 0
      · rw [decide_eq_true hneg]
        show some (Value.int (-(n.natAbs : Int))) = _
        congr 2
        omega
      · rw [decide_eq_false hneg]
        show some (Value.int (n.natAbs : Int)) = _
        congr 2
        omega

/-! ## Decimal numbers -/

/-- Dropping the trailing zeros of a coefficient loses nothing but zeros. -/
theorem exists_zeros_significant (d : Decimal) :
    ∃ zeros, Nat.toDigits 10 d.coefficient = d.significant ++ List.replicate zeros '0' := by
  have hsplit := List.takeWhile_append_dropWhile
    (p := (· == '0')) (l := (Nat.toDigits 10 d.coefficient).reverse)
  have hzeros : ∀ c ∈ (Nat.toDigits 10 d.coefficient).reverse.takeWhile (· == '0'), c = '0' := by
    intro c hc
    exact eq_of_beq (List.all_eq_true.mp List.all_takeWhile c hc)
  rw [List.eq_replicate_of_mem hzeros] at hsplit
  refine ⟨((Nat.toDigits 10 d.coefficient).reverse.takeWhile (· == '0')).length, ?_⟩
  rw [Decimal.significant, ← List.reverse_replicate, ← List.reverse_append, hsplit,
    List.reverse_reverse]

theorem leadsNonzero_significant {d : Decimal} (hd : d.coefficient ≠ 0) :
    LeadsNonzero d.significant := by
  obtain ⟨zeros, hzeros⟩ := exists_zeros_significant d
  obtain ⟨first, later, hdigits, hfirst⟩ := leadsNonzero_toDigits hd
  rw [hdigits] at hzeros
  cases hsignificant : d.significant with
  | nil =>
    rw [hsignificant, List.nil_append] at hzeros
    have hmem : first ∈ List.replicate zeros '0' := hzeros ▸ List.mem_cons_self
    exact absurd (List.eq_of_mem_replicate hmem) hfirst
  | cons c rest =>
    rw [hsignificant, List.cons_append] at hzeros
    exact ⟨c, rest, rfl, (List.cons.inj hzeros).1 ▸ hfirst⟩

theorem isDigit_of_mem_significant {d : Decimal} : ∀ c ∈ d.significant, c.isDigit = true := by
  intro c hc
  obtain ⟨zeros, hzeros⟩ := exists_zeros_significant d
  exact isDigit_of_mem_toDigits c (hzeros ▸ List.mem_append_left _ hc)

/-- Some well-formed numeral with a fraction has this sign, this text behind it, and this amount. -/
def SpelledWithPoint (negative : Bool) (text : List Char) (amount : Decimal) : Prop :=
  ∃ n : Numeral, n.WellFormed ∧ n.negative = negative ∧ n.fraction ≠ [] ∧
    n.spelled = Numeral.signText negative ++ text ∧ n.toDecimal.SameAmount amount

section Point

variable {digits : List Char} (hdigits : ∀ c ∈ digits, c.isDigit = true)
include hdigits

/-- The point is before the digits: a zero stands before it, and zeros behind it. -/
theorem spelledWithPoint_before (hne : digits ≠ []) (zeros : Nat) (negative : Bool) :
    SpelledWithPoint negative ('0' :: '.' :: (List.replicate zeros '0' ++ digits))
      ⟨digitsValue digits, -(zeros : Int) - digits.length⟩ := by
  refine ⟨⟨negative, ['0'], List.replicate zeros '0' ++ digits, none⟩, ⟨isDigit_of_mem_zero, .inl rfl,
    List.forall_mem_append.mpr ⟨isDigit_of_mem_zeros, hdigits⟩, nofun⟩, rfl, ?_, ?_, ?_⟩
  · exact List.append_ne_nil_of_right_ne_nil _ hne
  · simp [Numeral.spelled, Numeral.fractionText, Numeral.exponentText, hne]
  · have hvalue : digitsValue (['0'] ++ (List.replicate zeros '0' ++ digits)) =
        digitsValue digits := by
      rw [← List.append_assoc, digitsValue_append, List.singleton_append,
        ← List.replicate_succ, digitsValue_replicate_zero, Nat.mul_zero, Nat.zero_add]
    rw [Numeral.toDecimal, hvalue]
    refine Decimal.sameAmount_of_exponent_eq ?_
    simp only [Numeral.power, List.length_append, List.length_replicate]
    omega

variable (hleading : LeadsNonzero digits)
include hleading

/-- The point is behind the digits: zeros stand up to it, and one behind it. -/
theorem spelledWithPoint_behind (zeros : Nat) (negative : Bool) :
    SpelledWithPoint negative (digits ++ List.replicate zeros '0' ++ ['.', '0'])
      ⟨digitsValue digits, zeros⟩ := by
  obtain ⟨first, later, hcons, hfirst⟩ := hleading
  refine ⟨⟨negative, digits ++ List.replicate zeros '0', ['0'], none⟩,
    ⟨List.forall_mem_append.mpr ⟨hdigits, isDigit_of_mem_zeros⟩,
      .inr ⟨first, later ++ List.replicate zeros '0', by rw [hcons]; rfl, hfirst⟩,
      isDigit_of_mem_zero, nofun⟩, rfl, List.cons_ne_nil _ _, ?_, 0, zeros + 1, ?_⟩
  · simp [Numeral.spelled, Numeral.fractionText, Numeral.exponentText]
  · have hvalue : digitsValue (digits ++ List.replicate zeros '0' ++ ['0']) =
        digitsValue digits * 10 ^ (zeros + 1) := by
      rw [List.append_assoc, ← List.replicate_succ', digitsValue_append,
        digitsValue_replicate_zero, List.length_replicate, Nat.add_zero, Nat.mul_comm]
    rw [Numeral.toDecimal, hvalue, Decimal.scaled, Decimal.scaled]
    congr 1
    · rw [Nat.pow_zero, Nat.mul_one]
    · simp only [Numeral.power, List.length_singleton]
      omega

/-- The point is among the digits. -/
theorem spelledWithPoint_among {whole : Nat} (hpos : 0 < whole) (hwhole : whole < digits.length)
    (negative : Bool) :
    SpelledWithPoint negative (digits.take whole ++ '.' :: digits.drop whole)
      ⟨digitsValue digits, (whole : Int) - digits.length⟩ := by
  obtain ⟨first, later, hcons, hfirst⟩ := hleading
  have hdrop : digits.drop whole ≠ [] := by
    rw [Ne, List.drop_eq_nil_iff]
    omega
  refine ⟨⟨negative, digits.take whole, digits.drop whole, none⟩,
    ⟨fun c hc => hdigits c (List.mem_of_mem_take hc), .inr ⟨first, later.take (whole - 1), ?_,
      hfirst⟩, fun c hc => hdigits c (List.mem_of_mem_drop hc), nofun⟩, rfl, hdrop, ?_, ?_⟩
  · show digits.take whole = first :: later.take (whole - 1)
    rw [hcons]
    exact List.take_cons hpos
  · simp [Numeral.spelled, Numeral.fractionText, Numeral.exponentText, hdrop]
  · rw [Numeral.toDecimal]
    dsimp only
    rw [List.take_append_drop]
    refine Decimal.sameAmount_of_exponent_eq ?_
    simp only [Numeral.power, List.length_drop]
    omega

theorem spelledWithPoint_positional (point : Int) (negative : Bool) :
    SpelledWithPoint negative (Decimal.positional digits point)
      ⟨digitsValue digits, point - digits.length⟩ := by
  unfold Decimal.positional
  by_cases hsmall : point ≤ 0
  · obtain ⟨zeros, rfl⟩ : ∃ zeros : Nat, point = -(zeros : Int) := ⟨(-point).toNat, by omega⟩
    have hpoint : (- -(zeros : Int)).toNat = zeros := by omega
    rw [if_pos hsmall, hpoint]
    obtain ⟨first, later, rfl, -⟩ := hleading
    exact spelledWithPoint_before hdigits (List.cons_ne_nil first later) zeros negative
  · rw [if_neg hsmall]
    obtain ⟨whole, rfl⟩ : ∃ whole : Nat, point = whole := ⟨point.toNat, by omega⟩
    rw [Int.toNat_natCast]
    by_cases hlarge : digits.length ≤ whole
    · obtain ⟨zeros, rfl⟩ : ∃ zeros, whole = digits.length + zeros :=
        ⟨whole - digits.length, by omega⟩
      have hzeros : digits.length + zeros - digits.length = zeros := by omega
      have hpower : ((digits.length + zeros : Nat) : Int) - digits.length = zeros := by omega
      rw [if_pos hlarge, hzeros, hpower]
      exact spelledWithPoint_behind hdigits hleading zeros negative
    · rw [if_neg hlarge]
      exact spelledWithPoint_among hdigits hleading (by omega) (by omega) negative

end Point

theorem exists_spelled_scientific {digits : List Char} (hdigits : ∀ c ∈ digits, c.isDigit = true)
    (hleading : LeadsNonzero digits) (power : Int) (negative : Bool) :
    ∃ n : Numeral, n.WellFormed ∧ n.negative = negative ∧ n.exponent.isSome ∧
      n.spelled = Numeral.signText negative ++ Decimal.scientific digits power ∧
      n.toDecimal.SameAmount ⟨digitsValue digits, power + 1 - digits.length⟩ := by
  obtain ⟨first, later, rfl, hfirst⟩ := hleading
  obtain ⟨hdigit, hlater⟩ := List.forall_mem_cons.mp hdigits
  obtain ⟨padded, hpadded, hdefined⟩ : ∃ padded : List Char, digitsValue padded = power.natAbs ∧
      padded = List.replicate (2 - (Nat.toDigits 10 power.natAbs).length) '0' ++
        Nat.toDigits 10 power.natAbs := by
    refine ⟨_, ?_, rfl⟩
    rw [digitsValue_append, digitsValue_replicate_zero, digitsValue_toDigits, Nat.mul_zero,
      Nat.zero_add]
  have hexponent : padded ≠ [] ∧ ∀ c ∈ padded, c.isDigit = true := by
    rw [hdefined]
    refine ⟨?_, List.forall_mem_append.mpr ⟨isDigit_of_mem_zeros, isDigit_of_mem_toDigits⟩⟩
    exact List.append_ne_nil_of_right_ne_nil _ Nat.toDigits_ne_nil
  refine ⟨⟨negative, [first], later, some (decide (power < 0), padded)⟩,
    ⟨List.forall_mem_singleton.mpr hdigit, .inr ⟨first, [], rfl, hfirst⟩, hlater, ?_⟩, rfl, rfl,
    ?_, ?_⟩
  · rintro _ _ ⟨⟩
    exact hexponent
  · unfold Decimal.scientific
    dsimp only
    rw [← hdefined]
    cases later with
    | nil => simp [Numeral.spelled, Numeral.fractionText, Numeral.exponentText]
    | cons second rest => simp [Numeral.spelled, Numeral.fractionText, Numeral.exponentText]
  · have hpower : Numeral.power ⟨negative, [first], later, some (decide (power < 0), padded)⟩ =
        power := by
      by_cases hneg : power < 0
      · rw [decide_eq_true hneg]
        show -(digitsValue padded : Int) = power
        omega
      · rw [decide_eq_false hneg]
        show (digitsValue padded : Int) = power
        omega
    rw [Numeral.toDecimal, hpower]
    refine Decimal.sameAmount_of_exponent_eq ?_
    show power - (later.length : Int) = power + 1 - (first :: later).length
    rw [List.length_cons]
    omega

/-- The text of a decimal number spells a numeral of its amount, with a fraction or an exponent. -/
theorem exists_spelled_text (d : Decimal) (negative : Bool) :
    ∃ n : Numeral, n.WellFormed ∧ n.negative = negative ∧
      (n.fraction ≠ [] ∨ n.exponent.isSome) ∧
      n.spelled = Numeral.signText negative ++ d.text ∧ n.toDecimal.nearest? = d.nearest? := by
  unfold Decimal.text
  by_cases hd : d.coefficient = 0
  · rw [if_pos hd]
    refine ⟨⟨negative, ['0'], ['0'], none⟩, ⟨isDigit_of_mem_zero, .inl rfl, isDigit_of_mem_zero, nofun⟩, rfl,
      .inl (List.cons_ne_nil _ _), rfl, ?_⟩
    rw [Decimal.nearest?_of_coefficient_eq_zero hd]
    exact Decimal.nearest?_of_coefficient_eq_zero rfl
  · obtain ⟨zeros, hzeros⟩ := exists_zeros_significant d
    have hleading := leadsNonzero_significant hd
    have hcoefficient : d.coefficient = digitsValue d.significant * 10 ^ zeros := by
      rw [← digitsValue_toDigits d.coefficient, hzeros, digitsValue_append,
        digitsValue_replicate_zero, List.length_replicate, Nat.add_zero, Nat.mul_comm]
    have hlength : (Nat.toDigits 10 d.coefficient).length = d.significant.length + zeros := by
      rw [hzeros, List.length_append, List.length_replicate]
    have hsame : Decimal.SameAmount ⟨digitsValue d.significant, d.exponent + zeros⟩ d := by
      refine ⟨zeros, 0, ?_⟩
      rw [Decimal.scaled, Decimal.scaled, hcoefficient]
      congr 1
      · rw [Nat.pow_zero, Nat.mul_one]
      · dsimp only
        omega
    rw [if_neg hd, hlength]
    dsimp only
    split
    · obtain ⟨n, hn, hnegative, hmarked, hspelled, hamount⟩ := spelledWithPoint_positional
        isDigit_of_mem_significant hleading _ negative
      refine ⟨n, hn, hnegative, .inl hmarked, hspelled, ?_⟩
      rw [Decimal.nearest?_eq_of_sameAmount hamount, ← Decimal.nearest?_eq_of_sameAmount hsame]
      congr 2
      omega
    · obtain ⟨n, hn, hnegative, hmarked, hspelled, hamount⟩ := exists_spelled_scientific
        isDigit_of_mem_significant hleading _ negative
      refine ⟨n, hn, hnegative, .inr hmarked, hspelled, ?_⟩
      rw [Decimal.nearest?_eq_of_sameAmount hamount, ← Decimal.nearest?_eq_of_sameAmount hsame]
      congr 2
      omega

/-- The text of a finite number spells a numeral that is read as the number. -/
theorem exists_spelled_finite (negative : Bool) (x : Magnitude) :
    ∃ n : Numeral, n.WellFormed ∧ n.spelled = (Binary64.finite negative x).text ∧
      n.value? = some (.float (.finite negative x)) := by
  obtain ⟨n, hn, hnegative, hmarked, hspelled, hnearest⟩ := exists_spelled_text x.shortest negative
  refine ⟨n, hn, hspelled, ?_⟩
  have hfloat : (n.fraction.isEmpty && n.exponent.isNone) = false := by
    rcases hmarked with hfraction | hexponent
    · simp [hfraction]
    · cases hexp : n.exponent with
      | none => simp [hexp] at hexponent
      | some exponent => simp
  rw [Numeral.value?, hfloat, if_neg Bool.false_ne_true, Decimal.toBinary64, hnearest,
    Magnitude.nearest?_shortest, hnegative]

end Json

end SampleSchema
