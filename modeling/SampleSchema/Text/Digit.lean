import SampleSchema.Text.Blank
/-!
# Digits of all scripts

The decimal digits of a script are ten consecutive characters, so the property is given by
the zeros. Beside them stand characters that are digits without being decimal: superscripts,
circled digits and the like. They count as digits of a text, but no number can be read from
them.
-/

namespace SampleSchema.Text

/-! ## The digits of ASCII -/

theorem isDigit_iff_bounds {c : Char} : c.isDigit = true ↔ 48 ≤ c.toNat ∧ c.toNat ≤ 57 := by
  rw [Char.isDigit, Bool.and_eq_true, decide_eq_true_eq, decide_eq_true_eq, ge_iff_le,
    UInt32.le_iff_toNat_le, UInt32.le_iff_toNat_le]
  exact .rfl

theorem isBlank_of_isDigit {c : Char} (hc : c.isDigit = true) : isBlank c = false := by
  have hbounds := isDigit_iff_bounds.mp hc
  simp only [isBlank, Bool.or_eq_false_iff, Bool.and_eq_false_iff, decide_eq_false_iff_not,
    beq_eq_false_iff_ne]
  omega

/-! ## Decimal digits -/

/-- The digit zero of every script. -/
def decimalZeros : List Nat :=
  [0x30, 0x660, 0x6f0, 0x7c0, 0x966, 0x9e6, 0xa66, 0xae6, 0xb66, 0xbe6, 0xc66, 0xce6, 0xd66,
   0xde6, 0xe50, 0xed0, 0xf20, 0x1040, 0x1090, 0x17e0, 0x1810, 0x1946, 0x19d0, 0x1a80, 0x1a90,
   0x1b50, 0x1bb0, 0x1c40, 0x1c50, 0xa620, 0xa8d0, 0xa900, 0xa9d0, 0xa9f0, 0xaa50, 0xabf0,
   0xff10, 0x104a0, 0x10d30, 0x11066, 0x110f0, 0x11136, 0x111d0, 0x112f0, 0x11450, 0x114d0,
   0x11650, 0x116c0, 0x11730, 0x118e0, 0x11950, 0x11c50, 0x11d50, 0x11da0, 0x16a60, 0x16ac0,
   0x16b50, 0x1d7ce, 0x1d7d8, 0x1d7e2, 0x1d7ec, 0x1d7f6, 0x1e140, 0x1e2f0, 0x1e950, 0x1fbf0]

/-- The first and last characters of the runs of digits that are not decimal. -/
def otherDigits : List (Nat × Nat) :=
  [(0xb2, 0xb3), (0xb9, 0xb9), (0x1369, 0x1371), (0x19da, 0x19da), (0x2070, 0x2070),
   (0x2074, 0x2079), (0x2080, 0x2089), (0x2460, 0x2468), (0x2474, 0x247c), (0x2488, 0x2490),
   (0x24ea, 0x24ea), (0x24f5, 0x24fd), (0x24ff, 0x24ff), (0x2776, 0x277e), (0x2780, 0x2788),
   (0x278a, 0x2792), (0x10a40, 0x10a43), (0x10e60, 0x10e68), (0x11052, 0x1105a),
   (0x1f100, 0x1f10a)]

/-- The value of a decimal digit. -/
def decimalValue? (c : Char) : Option Nat :=
  (decimalZeros.find? fun first => first ≤ c.toNat && c.toNat < first + 10).map (c.toNat - ·)

/-- Whether the character is a digit, decimal or not. -/
def isDigit (c : Char) : Bool :=
  (decimalValue? c).isSome ||
    otherDigits.any fun (first, last) => first ≤ c.toNat && c.toNat ≤ last

/-- The most digits that an integer may be read from or written with. -/
def digitLimit : Nat := 4300

/-- The number that decimal digits stand for, read on from `value`. -/
def decimalDigits? (value : Nat) : List Char → Option Nat
  | [] => some value
  | c :: rest =>
    match decimalValue? c with
    | some d => decimalDigits? (10 * value + d) rest
    | none => none

/-- Digits are read on from what the digits before them were read as. -/
theorem decimalDigits?_append (value : Nat) (before behind : List Char) :
    decimalDigits? value (before ++ behind) =
      (decimalDigits? value before).bind fun value => decimalDigits? value behind := by
  induction before generalizing value with
  | nil => rfl
  | cons c before ih =>
    cases hd : decimalValue? c with
    | none => simp [decimalDigits?, hd]
    | some d => simp [decimalDigits?, hd, ih]

/-- The natural number that a text of decimal digits stands for. -/
def natural? (cs : List Char) : Option Nat :=
  if cs.isEmpty || digitLimit < cs.length then none else decimalDigits? 0 cs

/-- Drops the underscores that stand between two digits; any other is a fault. -/
def withoutUnderscores? : List Char → Option (List Char)
  | [] => some []
  | ['_'] => none
  | '_' :: '_' :: _ => none
  | c :: '_' :: d :: rest => (withoutUnderscores? (d :: rest)).map (c :: ·)
  | c :: rest => if c = '_' then none else (withoutUnderscores? rest).map (c :: ·)

/-- The integer that a text stands for: white space around it, a sign, and underscores
between digits are allowed. -/
def integer? (cs : List Char) : Option Int :=
  let magnitude? (digits : List Char) : Option Int :=
    (withoutUnderscores? digits >>= natural?).map Int.ofNat
  match trim cs with
  | '-' :: digits => (magnitude? digits).map (- ·)
  | '+' :: digits => magnitude? digits
  | digits => magnitude? digits

end SampleSchema.Text
