/-!
# Halves of surrogate pairs

Sixteen bits number the first characters, and two such units together, the halves of a surrogate
pair, number any other. Half of a pair is no character, and UTF-8 has no octets for it, but an
escape may leave a string with one. A text keeps it as a character that stands for it. Which
characters do that is a choice; those of a choice are told apart from each other, and should be
none that texts use for themselves.
-/

namespace SampleSchema.Text

/-- Whether a unit of sixteen bits is half of a surrogate pair. -/
def isHalf (unit : Nat) : Bool := 0xd800 ≤ unit && unit ≤ 0xdfff

/-- The characters that stand for halves of surrogate pairs, each for one. -/
structure Halves where
  char : Nat → Char
  unit? : Char → Option Nat
  unit?_eq_some_iff (c : Char) (unit : Nat) : unit? c = some unit ↔ isHalf unit = true ∧ char unit = c

namespace Halves

/-- Where the first half of a pair stands in a text. -/
def position? (halves : Halves) (cs : List Char) : Option Nat :=
  cs.findIdx? fun c => (halves.unit? c).isSome

theorem exists_half_of_position? {halves : Halves} {cs : List Char} {position : Nat}
    (h : halves.position? cs = some position) :
    ∃ unit, isHalf unit = true ∧ cs[position]? = some (halves.char unit) := by
  obtain ⟨hlt, hhalf, -⟩ := List.findIdx?_eq_some_iff_getElem.mp h
  obtain ⟨unit, hunit⟩ := Option.isSome_iff_exists.mp hhalf
  obtain ⟨hrange, hchar⟩ := (halves.unit?_eq_some_iff _ unit).mp hunit
  exact ⟨unit, hrange, by rw [hchar, List.getElem?_eq_getElem hlt]⟩

/-- Characters from a plane in which none is assigned. -/
def unassigned : Halves where
  char unit := Char.ofNat (0x50000 + (unit - 0xd800))
  unit? c :=
    let n := c.toNat
    if 0x50000 ≤ n ∧ n < 0x50800 then some (n - 0x50000 + 0xd800) else none
  unit?_eq_some_iff c unit := by
    have hchar : ∀ n < 0x800, (Char.ofNat (0x50000 + n)).toNat = 0x50000 + n := by
      intro n hn
      have hvalid : (0x50000 + n).isValidChar := .inr ⟨by omega, by omega⟩
      rw [Char.ofNat, dif_pos hvalid]
      rfl
    simp only [Option.ite_none_right_eq_some, Option.some.injEq, isHalf, Bool.and_eq_true,
      decide_eq_true_eq]
    constructor
    · rintro ⟨hrange, rfl⟩
      have hback : 0x50000 + (c.toNat - 0x50000 + 0xd800 - 0xd800) = c.toNat := by omega
      rw [hback, Char.ofNat_toNat]
      exact ⟨by omega, rfl⟩
    · rintro ⟨hrange, rfl⟩
      rw [hchar (unit - 0xd800) (by omega)]
      exact ⟨by omega, by omega⟩

end Halves

end SampleSchema.Text
