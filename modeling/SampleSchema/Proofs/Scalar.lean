import Mathlib.Data.List.Pairwise
import SampleSchema.Proofs.Accumulation
/-!
# Equality of constants

Whether two scalars are equal is asked of an integer and a binary number, too, and is decided
by what they stand for. Here is that this equality, for scalars of one type, is symmetric and
transitive; it is not reflexive, because of the number that is none.

So a batch has a constant exactly if its scalars are equal in pairs. This is a statement
without an order, although a node holds all later scalars against the first one only.
-/

namespace SampleSchema

theorem Magnitude.unitsPerOne_pos : 0 < Magnitude.unitsPerOne := by
  unfold unitsPerOne
  apply Nat.two_pow_pos

namespace Binary64

theorem sameInt_iff {x : Binary64} {n : Int} :
    x.sameInt n = true ↔ x.units? = some (n * Magnitude.unitsPerOne) := by
  unfold sameInt
  split
  · rename_i m hm
    rw [hm, beq_iff_eq, Option.some.injEq]
  · rename_i hnone
    rw [hnone]
    exact iff_of_false Bool.false_ne_true nofun

theorem same_iff {x y : Binary64} :
    x.same y = true ↔
      (∃ m, x.units? = some m ∧ y.units? = some m) ∨ ∃ b, x = .infinite b ∧ y = .infinite b := by
  unfold same
  split
  · rename_i a b
    rw [beq_iff_eq]
    constructor
    · intro heq
      rw [heq]
      exact .inr ⟨b, rfl, rfl⟩
    · intro h
      rcases h with ⟨m, hm, -⟩ | ⟨c, ha, hb⟩
      · simp [units?] at hm
      · exact (infinite.inj ha).trans (infinite.inj hb).symm
  · rename_i hx
    have hnot : ¬ ∃ b, x = .infinite b ∧ y = .infinite b := by
      intro h
      obtain ⟨b, rfl, rfl⟩ := h
      exact hx b b rfl rfl
    rw [or_iff_left hnot]
    split
    · rename_i m n hm hn
      rw [hm, hn, beq_iff_eq]
      constructor
      · intro heq
        rw [heq]
        exact ⟨n, rfl, rfl⟩
      · intro h
        obtain ⟨k, hk, hk'⟩ := h
        exact (Option.some.inj hk).trans (Option.some.inj hk').symm
    · rename_i hnone
      refine iff_of_false (by simp) ?_
      intro h
      obtain ⟨m, hm, hm'⟩ := h
      exact hnone m m hm hm'

end Binary64

namespace Value

/-- What a finite number stands for, in units of the smallest binary number. -/
def units? : Value → Option Int
  | .int n => some (n * Magnitude.unitsPerOne)
  | .float x => x.units?
  | _ => none

/-- Scalars that are equal to themselves and to nothing else. -/
def equalsOnlyItself : Value → Bool
  | .bool _ | .str _ | .bytes _ | .float (.infinite _) => true
  | _ => false

/-- Two finite numbers, integers or binary, that stand for the same amount. -/
def SameNumber (v w : Value) : Prop :=
  ∃ amount, v.units? = some amount ∧ w.units? = some amount

theorem SameNumber.symm {v w : Value} (h : v.SameNumber w) : w.SameNumber v := by
  obtain ⟨amount, hv, hw⟩ := h
  exact ⟨amount, hw, hv⟩

theorem not_sameNumber_of_units?_eq_none {v w : Value} (h : w.units? = none) :
    ¬ v.SameNumber w := by
  intro hamount
  obtain ⟨amount, -, hw⟩ := hamount
  rw [h] at hw
  exact nomatch hw

theorem sameNumber_int_iff {n : Int} {w : Value} :
    (int n).SameNumber w ↔ w.units? = some (n * Magnitude.unitsPerOne) := by
  constructor
  · intro hamount
    obtain ⟨amount, hn, hw⟩ := hamount
    obtain rfl := Option.some.inj hn
    exact hw
  · intro hw
    exact ⟨_, rfl, hw⟩

/-- Where the comparison says no, at least one side is no number, and the two are different or
of a kind that is never equal to itself, there is nothing to show. -/
theorem sameScalar_iff_of_eq_false {v w : Value} (hsame : v.sameScalar w = false)
    (hnumber : v.units? = none ∨ w.units? = none)
    (hself : v ≠ w ∨ v.equalsOnlyItself = false) :
    v.sameScalar w = true ↔ v.SameNumber w ∨ v = w ∧ v.equalsOnlyItself = true := by
  rw [hsame]
  refine iff_of_false Bool.false_ne_true ?_
  -- being one number takes an amount on either side
  intro h
  rcases h with hamount | ⟨heq, honly⟩
  · rcases hnumber with hv | hw
    · exact not_sameNumber_of_units?_eq_none hv hamount.symm
    · exact not_sameNumber_of_units?_eq_none hw hamount
  · rcases hself with hne | hnot
    · exact hne heq
    · rw [hnot] at honly
      exact Bool.false_ne_true honly

theorem sameScalar_iff {v w : Value} :
    v.sameScalar w = true ↔ v.SameNumber w ∨ v = w ∧ v.equalsOnlyItself = true := by
  -- only pairs of numbers are compared by amount, and only like kinds by themselves
  cases v with
  | int m =>
    cases w with
    | int n =>
      -- units are a multiple of the integer, so that equal units mean equal integers
      have hpos := Magnitude.unitsPerOne_pos
      have hinj : n * (Magnitude.unitsPerOne : Int) = m * Magnitude.unitsPerOne ↔ n = m :=
        Int.mul_eq_mul_right_iff (by omega)
      rw [or_iff_left fun h => Bool.false_ne_true h.2, sameNumber_int_iff]
      show (m == n) = true ↔
        some (n * (Magnitude.unitsPerOne : Int)) = some (m * (Magnitude.unitsPerOne : Int))
      rw [Option.some.injEq, hinj, beq_iff_eq, eq_comm]
    | float y =>
      rw [or_iff_left fun h => Value.noConfusion h.1, sameNumber_int_iff]
      exact Binary64.sameInt_iff
    | _ => exact sameScalar_iff_of_eq_false rfl (.inr rfl) (.inl nofun)
  | float x =>
    cases w with
    | int n =>
      have hsymm : (float x).SameNumber (int n) ↔ (int n).SameNumber (float x) :=
        ⟨SameNumber.symm, SameNumber.symm⟩
      rw [or_iff_left fun h => Value.noConfusion h.1, hsymm, sameNumber_int_iff]
      exact Binary64.sameInt_iff
    | float y =>
      refine Binary64.same_iff.trans (or_congr_right ⟨?_, ?_⟩)
      · intro h
        obtain ⟨b, rfl, rfl⟩ := h
        exact ⟨rfl, rfl⟩
      · intro h
        obtain ⟨heq, honly⟩ := h
        obtain rfl := Value.float.inj heq
        -- of the binary numbers, only the infinite ones are compared without units
        cases x with
        | infinite b => exact ⟨b, rfl, rfl⟩
        | _ => exact absurd honly Bool.false_ne_true
    | _ => exact sameScalar_iff_of_eq_false rfl (.inr rfl) (.inl nofun)
  | bool a =>
    cases w with
    | bool b =>
      rw [or_iff_right (not_sameNumber_of_units?_eq_none rfl)]
      simp [sameScalar, equalsOnlyItself]
    | _ => exact sameScalar_iff_of_eq_false rfl (.inl rfl) (.inl nofun)
  | str s =>
    cases w with
    | str t =>
      rw [or_iff_right (not_sameNumber_of_units?_eq_none rfl)]
      simp [sameScalar, equalsOnlyItself]
    | _ => exact sameScalar_iff_of_eq_false rfl (.inl rfl) (.inl nofun)
  | bytes s =>
    cases w with
    | bytes t =>
      rw [or_iff_right (not_sameNumber_of_units?_eq_none rfl)]
      simp [sameScalar, equalsOnlyItself]
    | _ => exact sameScalar_iff_of_eq_false rfl (.inl rfl) (.inl nofun)
  | _ => exact sameScalar_iff_of_eq_false rfl (.inl rfl) (.inr rfl)

theorem sameScalar_symm {v w : Value} (h : v.sameScalar w = true) : w.sameScalar v = true := by
  rw [sameScalar_iff] at h ⊢
  rcases h with hamount | ⟨rfl, hself⟩
  · exact .inl hamount.symm
  · exact .inr ⟨rfl, hself⟩

theorem sameScalar_trans {u v w : Value} (huv : u.sameScalar v = true)
    (hvw : v.sameScalar w = true) : u.sameScalar w = true := by
  rcases sameScalar_iff.mp huv with ⟨m, hu, hv⟩ | ⟨rfl, -⟩
  · rcases sameScalar_iff.mp hvw with ⟨n, hv', hw⟩ | ⟨rfl, -⟩
    · obtain rfl : m = n := Option.some.inj (hv.symm.trans hv')
      exact sameScalar_iff.mpr (.inl ⟨m, hu, hw⟩)
    · exact huv
  · exact hvw

/-- Two scalars that a node takes for one constant. -/
def Agrees (v w : Value) : Prop :=
  v.primitiveType = w.primitiveType ∧ v.sameScalar w = true

instance (v w : Value) : Decidable (v.Agrees w) :=
  inferInstanceAs (Decidable (_ ∧ _))

theorem Agrees.symm {v w : Value} (h : v.Agrees w) : w.Agrees v :=
  ⟨h.1.symm, sameScalar_symm h.2⟩

theorem Agrees.trans {u v w : Value} (huv : u.Agrees v) (hvw : v.Agrees w) : u.Agrees w :=
  ⟨huv.1.trans hvw.1, sameScalar_trans huv.2 hvw.2⟩

end Value

/-! ## The constant of a batch, without an order -/

theorem pairwise_agrees_cons {first : Value} {later : Batch} :
    (first :: later).Pairwise Value.Agrees ↔ ∀ v ∈ later, first.Agrees v := by
  rw [List.pairwise_cons, and_iff_left_of_imp]
  intro hfirst
  exact List.pairwise_of_forall_mem_list fun v hv w hw => (hfirst v hv).symm.trans (hfirst w hw)

/-- A batch has a constant exactly if its scalars agree in pairs, and it is the first one. -/
theorem Node.constant?_observeAll_fresh (observer : Observer) (vs : Batch) :
    (observeAll observer vs {}).constant? =
      if vs.scalars.Pairwise Value.Agrees then vs.scalars.head? else none := by
  rw [constant?, constant_observeAll_fresh, Constant.ofBatch]
  cases hscalars : vs.scalars with
  | nil => simp
  | cons first later =>
    have hall : (later.all fun v =>
        decide (first.primitiveType = v.primitiveType) && first.sameScalar v) = true ↔
          (first :: later).Pairwise Value.Agrees := by
      rw [pairwise_agrees_cons, List.all_eq_true]
      simp only [Bool.and_eq_true, decide_eq_true_eq, Value.Agrees]
    dsimp only
    by_cases h : (first :: later).Pairwise Value.Agrees
    · rw [if_pos (hall.mpr h), if_pos h]
      rfl
    · rw [if_neg fun hp => h (hall.mp hp), if_neg h]

end SampleSchema
