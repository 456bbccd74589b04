import Mathlib.Data.List.Forall2
import SampleSchema.Proofs.Batch
/-!
# Samples in another order

`Value.Reordered` relates a value to those that differ from it in the order of array elements
and of object members only, at any depth: the parts are reordered one by one, and then they
change places. `Batch.Reordered` is the same for a whole batch.

What a node reads off a batch comes out of two reordered batches in two ways. The batches of the
parts are reordered again, so that a proof by `Batch.induction` can go on with them. All else
(tags, texts, scalars, names) is a permutation, because reordered values without parts are
equal.
-/

namespace SampleSchema

mutual

/-- The second value is the first one with array elements and object members in another order,
at any depth. -/
inductive Value.Reordered : Value → Value → Prop where
  | same (v : Value) : Value.Reordered v v
  | list {items changed others : List Value} (parts : List.Forall₂ Value.Reordered items changed)
      (places : changed.Perm others) : Value.Reordered (.list items) (.list others)
  | tuple {items changed others : List Value} (parts : List.Forall₂ Value.Reordered items changed)
      (places : changed.Perm others) : Value.Reordered (.tuple items) (.tuple others)
  | object {members changed others : List (String × Value)}
      (parts : List.Forall₂ Value.ReorderedMember members changed)
      (places : changed.Perm others) : Value.Reordered (.object members) (.object others)

/-- Members of one name, with a reordered value. -/
inductive Value.ReorderedMember : String × Value → String × Value → Prop where
  | member (name : String) {v w : Value} (value : Value.Reordered v w) :
      Value.ReorderedMember (name, v) (name, w)

end

/-- The second batch is the first one in another order, and so are the parts of its values. -/
def Batch.Reordered (vs ws : Batch) : Prop :=
  ∃ us, List.Forall₂ Value.Reordered vs us ∧ us.Perm ws

/-! ## One value -/

namespace Value.Reordered

variable {v w : Value} (h : v.Reordered w)
include h

theorem primitiveType_eq : v.primitiveType = w.primitiveType := by
  cases h with
  | same => rfl
  | list => rfl
  | tuple => rfl
  | object => rfl

theorem isNull_eq : v.isNull = w.isNull := by
  cases h with
  | same => rfl
  | list => rfl
  | tuple => rfl
  | object => rfl

theorem eq_of_isScalar (hs : v.primitiveType.isScalar = true) : v = w := by
  cases h with
  | same => rfl
  | list => simp [primitiveType, PrimitiveType.isScalar] at hs
  | tuple => simp [primitiveType, PrimitiveType.isScalar] at hs
  | object => simp [primitiveType, PrimitiveType.isScalar] at hs

end Value.Reordered

/-! ## Batches -/

namespace Batch.Reordered

variable {vs ws : Batch}

theorem refl (vs : Batch) : Reordered vs vs :=
  ⟨vs, List.forall₂_same.mpr fun v _ => .same v, .refl vs⟩

theorem trans_perm {xs : Batch} (h : Reordered vs ws) (hp : ws.Perm xs) : Reordered vs xs := by
  obtain ⟨us, hparts, hplaces⟩ := h
  exact ⟨us, hparts, hplaces.trans hp⟩

theorem append {vs' ws' : Batch} (h : Reordered vs ws) (h' : Reordered vs' ws') :
    Reordered (vs ++ vs') (ws ++ ws') := by
  obtain ⟨us, hparts, hplaces⟩ := h
  obtain ⟨us', hparts', hplaces'⟩ := h'
  exact ⟨us ++ us', List.rel_append hparts hparts', hplaces.append hplaces'⟩

theorem length_eq (h : Reordered vs ws) : vs.length = ws.length := by
  obtain ⟨us, hparts, hplaces⟩ := h
  exact hparts.length_eq.trans hplaces.length_eq

end Batch.Reordered

/-! ### The parts of reordered values are reordered -/

theorem Value.ReorderedMember.names_eq {members others : List (String × Value)}
    (h : List.Forall₂ Value.ReorderedMember members others) :
    Table.names members = Table.names others := by
  induction h with
  | nil => rfl
  | cons hmember _ ih =>
    obtain ⟨name, -⟩ := hmember
    rw [Table.names_cons, Table.names_cons, ih]

namespace Value.Reordered

variable {v w : Value}

theorem elements (h : v.Reordered w) : Batch.Reordered v.elements w.elements := by
  cases h with
  | same => exact .refl _
  | list parts places => exact ⟨_, parts, places⟩
  | tuple parts places => exact ⟨_, parts, places⟩
  | object => exact .refl []

/-- The given members are reordered one by one, and change places. -/
theorem givenMembers (h : v.Reordered w) :
    ∃ changed, List.Forall₂ ReorderedMember v.givenMembers changed ∧
      changed.Perm w.givenMembers := by
  cases h with
  | same =>
    exact ⟨_, List.forall₂_same.mpr fun member _ => .member member.1 (.same member.2), .refl _⟩
  | list => exact ⟨[], .nil, .refl _⟩
  | tuple => exact ⟨[], .nil, .refl _⟩
  | @object members changed others parts places =>
    refine ⟨changed.filter fun member => !member.2.isNull, ?_, places.filter _⟩
    refine List.rel_filter ?_ parts
    intro m n hmember
    obtain ⟨name, value⟩ := hmember
    simp [value.isNull_eq]

theorem valuesOf_givenMembers (h : v.Reordered w) (name : String) :
    Batch.Reordered (Table.valuesOf name v.givenMembers)
      (Table.valuesOf name w.givenMembers) := by
  obtain ⟨changed, hparts, hplaces⟩ := h.givenMembers
  refine ⟨Table.valuesOf name changed, ?_, (hplaces.filter _).map _⟩
  refine List.rel_map ?_ (List.rel_filter ?_ hparts)
  · intro m n hmember
    obtain ⟨_, value⟩ := hmember
    exact value
  · intro m n hmember
    obtain ⟨_, value⟩ := hmember
    exact Iff.rfl

theorem names_givenMembers_perm (h : v.Reordered w) :
    (Table.names v.givenMembers).Perm (Table.names w.givenMembers) := by
  obtain ⟨changed, hparts, hplaces⟩ := h.givenMembers
  rw [ReorderedMember.names_eq hparts]
  exact hplaces.map _

end Value.Reordered

/-! ### What a node reads off reordered batches -/

namespace Batch.Reordered

variable {vs ws : Batch}

/-- What the values of a batch yield one by one is reordered, if one reordered value yields
something reordered. -/
theorem flatMap {f : Value → Batch} (hf : ∀ v w, v.Reordered w → Reordered (f v) (f w))
    (h : Reordered vs ws) : Reordered (vs.flatMap f) (ws.flatMap f) := by
  obtain ⟨us, hparts, hplaces⟩ := h
  -- value by value first, and then all of them change places
  refine trans_perm ?_ (hplaces.flatMap_right f)
  clear hplaces
  induction hparts with
  | nil => exact refl []
  | cons hv _ ih => exact append (hf _ _ hv) ih

theorem flatMap_perm {α : Type} {f : Value → List α}
    (hf : ∀ v w, v.Reordered w → (f v).Perm (f w)) (h : Reordered vs ws) :
    (vs.flatMap f).Perm (ws.flatMap f) := by
  obtain ⟨us, hparts, hplaces⟩ := h
  refine List.Perm.trans ?_ (hplaces.flatMap_right f)
  clear hplaces
  induction hparts with
  | nil => exact .refl _
  | cons hv _ ih => exact (hf _ _ hv).append ih

theorem elements (h : Reordered vs ws) : Reordered vs.elements ws.elements :=
  h.flatMap fun _ _ hv => hv.elements

theorem named (h : Reordered vs ws) (name : String) :
    Reordered (vs.named name) (ws.named name) := by
  have hnamed : ∀ vs : Batch, vs.named name =
      vs.flatMap fun v => Table.valuesOf name v.givenMembers := by
    intro vs
    induction vs with
    | nil => rfl
    | cons v rest ih => rw [named_cons, ih, List.flatMap_cons]
  rw [hnamed, hnamed]
  exact h.flatMap fun _ _ hv => hv.valuesOf_givenMembers name

theorem fieldNames_perm (h : Reordered vs ws) : vs.fieldNames.Perm ws.fieldNames := by
  have hnames : ∀ vs : Batch, vs.fieldNames =
      vs.flatMap fun v => Table.names v.givenMembers := by
    intro vs
    simp [fieldNames, entries, Table.names, List.map_flatMap]
  rw [hnames, hnames]
  exact h.flatMap_perm fun _ _ hv => hv.names_givenMembers_perm

theorem tags_perm (h : Reordered vs ws) : vs.tags.Perm ws.tags := by
  have htags : ∀ vs : Batch, vs.tags = vs.flatMap fun v => [v.primitiveType.name] := by
    intro vs
    rw [tags, List.map_eq_flatMap]
  rw [htags, htags]
  exact h.flatMap_perm fun _ _ hv => by rw [hv.primitiveType_eq]

theorem hasArray_eq (h : Reordered vs ws) : vs.hasArray = ws.hasArray := by
  obtain ⟨us, hparts, hplaces⟩ := h
  rw [hasArray, hasArray, ← hplaces.any_eq]
  clear hplaces
  induction hparts with
  | nil => rfl
  | cons hv _ ih => rw [List.any_cons, List.any_cons, ih, hv.primitiveType_eq]

theorem scalars_perm (h : Reordered vs ws) : vs.scalars.Perm ws.scalars := by
  obtain ⟨us, hparts, hplaces⟩ := h
  -- value by value the scalars are the same, and only their places differ
  have hscalars : vs.scalars = Batch.scalars us := by
    clear hplaces
    induction hparts with
    | nil => rfl
    | cons hv _ ih =>
      rw [scalars_cons, scalars_cons, ih, ← hv.primitiveType_eq]
      split
      · rename_i hs
        rw [hv.eq_of_isScalar hs]
      · rfl
  rw [hscalars]
  exact hplaces.filter _

theorem texts_perm (h : Reordered vs ws) : vs.texts.Perm ws.texts := by
  obtain ⟨us, hparts, hplaces⟩ := h
  -- texts have no parts either
  have htexts : vs.texts = Batch.texts us := by
    clear hplaces
    induction hparts with
    | nil => rfl
    | cons hv _ ih =>
      rw [texts_cons, texts_cons, ih, ← hv.primitiveType_eq]
      split
      · rename_i hs
        rw [hv.eq_of_isScalar (by rw [hs]; rfl)]
      · rfl
  rw [htexts]
  exact (hplaces.filter _).map _

end Batch.Reordered

end SampleSchema
