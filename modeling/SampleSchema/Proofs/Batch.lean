import SampleSchema.Proofs.Grouping
import SampleSchema.Value.Display
/-!
# Batches of values

A batch is all values that reached one position, in the order in which they came. What a node
learns is a function of its batch, and the batches of its item node and of its children are cut
out of the batch of the node: the elements of all arrays, and for each name the members of that
name that are not null.

* `Batch.elements` and `Batch.named` are the batches of the parts.
* `Batch.induction` is induction over a batch along these parts. It is the only place where the
  nesting of values is measured.
* `Value.everywhere` says that a value and all its parts, at every depth, pass a test.
-/

namespace SampleSchema

namespace Value

/-! ## The parts of one value -/

/-- The elements of an array, fixed or not. Other values have none. -/
def elements : Value → List Value
  | .list items => items
  | .tuple items => items
  | _ => []

/-- The members of an object that are not null. Other values have none. -/
def givenMembers : Value → List (String × Value)
  | .object members => members.filter fun member => !member.2.isNull
  | _ => []

theorem isNull_iff {v : Value} : v.isNull = true ↔ v = .null := by
  cases v <;> simp [isNull]

theorem mem_givenMembers {name : String} {w v : Value} :
    (name, w) ∈ v.givenMembers ↔
      ∃ members, v = .object members ∧ (name, w) ∈ members ∧ w ≠ .null := by
  cases v with
  | object members =>
    simp only [givenMembers, List.mem_filter, Bool.not_eq_true', ← Bool.not_eq_true, isNull_iff,
      object.injEq, exists_eq_left']
  | _ => simp [givenMembers]

theorem sizeOf_lt_of_mem_elements {w v : Value} (h : w ∈ v.elements) : sizeOf w < sizeOf v := by
  cases v with
  | list items =>
    have hlt := List.sizeOf_lt_of_mem (show w ∈ items from h)
    simp only [list.sizeOf_spec]
    omega
  | tuple items =>
    have hlt := List.sizeOf_lt_of_mem (show w ∈ items from h)
    simp only [tuple.sizeOf_spec]
    omega
  | _ => simp [elements] at h

theorem sizeOf_lt_of_mem_givenMembers {name : String} {w v : Value}
    (h : (name, w) ∈ v.givenMembers) : sizeOf w < sizeOf v := by
  obtain ⟨members, rfl, hmem, -⟩ := mem_givenMembers.mp h
  have hlt := List.sizeOf_lt_of_mem hmem
  simp only [object.sizeOf_spec]
  simp only [Prod.mk.sizeOf_spec] at hlt
  omega

theorem primitiveType_eq_array_of_mem_elements {w v : Value} (h : w ∈ v.elements) :
    v.primitiveType = .array := by
  cases v <;> simp_all [elements, primitiveType]

/-! ## Tests at every depth -/

mutual

/-- Whether a value and all its parts, at every depth, pass a test. -/
def everywhere (test : Value → Bool) : Value → Bool
  | .list items => test (.list items) && itemsEverywhere test items
  | .tuple items => test (.tuple items) && itemsEverywhere test items
  | .object members => test (.object members) && membersEverywhere test members
  | v => test v
termination_by structural v => v

def itemsEverywhere (test : Value → Bool) : List Value → Bool
  | [] => true
  | item :: rest => everywhere test item && itemsEverywhere test rest
termination_by structural items => items

def membersEverywhere (test : Value → Bool) : List (String × Value) → Bool
  | [] => true
  | (_, value) :: rest => everywhere test value && membersEverywhere test rest
termination_by structural members => members

end

variable {test : Value → Bool}

theorem itemsEverywhere_eq_all (items : List Value) :
    itemsEverywhere test items = items.all (everywhere test) := by
  induction items with
  | nil => rfl
  | cons item rest ih => rw [itemsEverywhere, ih, List.all_cons]

theorem membersEverywhere_eq_all (members : List (String × Value)) :
    membersEverywhere test members = members.all fun member => everywhere test member.2 := by
  induction members with
  | nil => rfl
  | cons member rest ih =>
    obtain ⟨name, value⟩ := member
    rw [membersEverywhere, ih, List.all_cons]

theorem everywhere_list_iff {items : List Value} :
    (list items).everywhere test = true ↔
      test (.list items) = true ∧ ∀ item ∈ items, item.everywhere test = true := by
  rw [everywhere, Bool.and_eq_true, itemsEverywhere_eq_all, List.all_eq_true]

theorem everywhere_tuple_iff {items : List Value} :
    (tuple items).everywhere test = true ↔
      test (.tuple items) = true ∧ ∀ item ∈ items, item.everywhere test = true := by
  rw [everywhere, Bool.and_eq_true, itemsEverywhere_eq_all, List.all_eq_true]

theorem everywhere_object_iff {members : List (String × Value)} :
    (object members).everywhere test = true ↔
      test (.object members) = true ∧ ∀ member ∈ members, member.2.everywhere test = true := by
  rw [everywhere, Bool.and_eq_true, membersEverywhere_eq_all, List.all_eq_true]

theorem test_of_everywhere {v : Value} (h : v.everywhere test = true) : test v = true := by
  cases v <;> simp_all [everywhere]

theorem everywhere_of_mem_elements {w v : Value} (h : v.everywhere test = true)
    (hw : w ∈ v.elements) : w.everywhere test = true := by
  cases v with
  | list items =>
    rw [everywhere, Bool.and_eq_true, itemsEverywhere_eq_all, List.all_eq_true] at h
    exact h.2 w hw
  | tuple items =>
    rw [everywhere, Bool.and_eq_true, itemsEverywhere_eq_all, List.all_eq_true] at h
    exact h.2 w hw
  | _ => simp [elements] at hw

theorem everywhere_of_mem_givenMembers {name : String} {w v : Value}
    (h : v.everywhere test = true) (hw : (name, w) ∈ v.givenMembers) :
    w.everywhere test = true := by
  obtain ⟨members, rfl, hmem, -⟩ := mem_givenMembers.mp hw
  rw [everywhere, Bool.and_eq_true, membersEverywhere_eq_all, List.all_eq_true] at h
  exact h.2 (name, w) hmem

/-- No object in the value, at any depth, has two members of one name. Every value that comes
from a text or a dictionary is like this. -/
def hasDistinctNames (v : Value) : Bool :=
  v.everywhere fun w => decide (Table.names (w.members?.getD [])).Nodup

/-- The value is not null, and neither is any of its parts, at any depth. -/
def isNullFree (v : Value) : Bool :=
  v.everywhere fun w => !w.isNull

end Value

/-! ## Batches -/

/-- The values that reached one position, in their order. -/
abbrev Batch := List Value

namespace Batch

/-- The names of the types of the values. -/
def tags (vs : Batch) : List String :=
  vs.map fun v => v.primitiveType.name

/-- The values that can be constants. -/
def scalars (vs : Batch) : Batch :=
  vs.filter fun v => v.primitiveType.isScalar

/-- What the detectors see of the values that are strings. -/
def texts (vs : Batch) : List String :=
  (vs.filter fun v => v.primitiveType = .string).map Value.plainText

/-- Whether an array is among the values. -/
def hasArray (vs : Batch) : Bool :=
  vs.any fun v => v.primitiveType = .array

/-- The elements of all arrays, one array after the other. -/
def elements (vs : Batch) : Batch :=
  vs.flatMap Value.elements

/-- The members of all objects that are not null, one object after the other. -/
def entries (vs : Batch) : List (String × Value) :=
  vs.flatMap Value.givenMembers

/-- The names under which some object has a member that is not null, as often as it occurs. -/
def fieldNames (vs : Batch) : List String :=
  Table.names vs.entries

/-- The members of one name that are not null, one object after the other. -/
def named (name : String) (vs : Batch) : Batch :=
  Table.valuesOf name vs.entries

@[simp] theorem entries_cons (v : Value) (vs : Batch) :
    entries (v :: vs) = v.givenMembers ++ entries vs := rfl

@[simp] theorem elements_cons (v : Value) (vs : Batch) :
    elements (v :: vs) = v.elements ++ elements vs := rfl

theorem scalars_cons (v : Value) (vs : Batch) :
    scalars (v :: vs) = if v.primitiveType.isScalar then v :: scalars vs else scalars vs :=
  List.filter_cons

theorem texts_cons (v : Value) (vs : Batch) :
    texts (v :: vs) =
      if v.primitiveType = .string then v.plainText :: texts vs else texts vs := by
  by_cases h : v.primitiveType = .string <;> simp [texts, h]

theorem hasArray_cons (v : Value) (vs : Batch) :
    hasArray (v :: vs) = (decide (v.primitiveType = .array) || hasArray vs) := rfl

theorem mem_elements {w : Value} {vs : Batch} : w ∈ vs.elements ↔ ∃ v ∈ vs, w ∈ v.elements :=
  List.mem_flatMap

theorem mem_named {name : String} {w : Value} {vs : Batch} :
    w ∈ vs.named name ↔ ∃ v ∈ vs, (name, w) ∈ v.givenMembers :=
  Table.mem_valuesOf.trans List.mem_flatMap

theorem named_cons (name : String) (v : Value) (vs : Batch) :
    named name (v :: vs) = Table.valuesOf name v.givenMembers ++ named name vs := by
  rw [named, entries_cons, Table.valuesOf_append, named]

theorem hasArray_of_mem_elements {w : Value} {vs : Batch} (h : w ∈ vs.elements) :
    vs.hasArray = true := by
  obtain ⟨v, hv, hw⟩ := mem_elements.mp h
  refine List.any_eq_true.mpr ⟨v, hv, ?_⟩
  simpa using Value.primitiveType_eq_array_of_mem_elements hw

theorem everywhere_elements {test : Value → Bool} {vs : Batch}
    (h : ∀ v ∈ vs, v.everywhere test = true) : ∀ w ∈ vs.elements, w.everywhere test = true := by
  intro w hw
  obtain ⟨v, hv, hmem⟩ := mem_elements.mp hw
  exact Value.everywhere_of_mem_elements (h v hv) hmem

theorem everywhere_named {test : Value → Bool} {vs : Batch} (name : String)
    (h : ∀ v ∈ vs, v.everywhere test = true) :
    ∀ w ∈ vs.named name, w.everywhere test = true := by
  intro w hw
  obtain ⟨v, hv, hmem⟩ := mem_named.mp hw
  exact Value.everywhere_of_mem_givenMembers (h v hv) hmem

/-! ## Induction -/

/-- Induction over a batch. A property of batches holds of all of them if it passes from the
batches of the parts, as far as there are such parts, to the whole. -/
theorem induction {motive : Batch → Prop}
    (step : ∀ vs : Batch, (vs.hasArray = true → motive vs.elements) →
      (∀ name ∈ vs.fieldNames, motive (vs.named name)) → motive vs)
    (vs : Batch) : motive vs := by
  -- on a bound of the sizes of the values, which the parts undercut
  have bounded : ∀ (bound : Nat) (vs : Batch), (∀ v ∈ vs, sizeOf v < bound) → motive vs := by
    intro bound
    induction bound with
    | zero =>
      intro vs hsize
      obtain rfl : vs = [] := List.eq_nil_iff_forall_not_mem.mpr fun v hv => by
        have := hsize v hv
        omega
      exact step [] (fun h => by simp [hasArray] at h) fun name h => by
        simp [fieldNames, entries] at h
    | succ bound ih =>
      intro vs hsize
      refine step vs (fun _ => ih _ ?_) fun name _ => ih _ ?_
      · intro w hw
        obtain ⟨v, hv, hmem⟩ := mem_elements.mp hw
        have := hsize v hv
        have := Value.sizeOf_lt_of_mem_elements hmem
        omega
      · intro w hw
        obtain ⟨v, hv, hmem⟩ := mem_named.mp hw
        have := hsize v hv
        have := Value.sizeOf_lt_of_mem_givenMembers hmem
        omega
  refine bounded (sizeOf vs) vs ?_
  intro v hv
  exact List.sizeOf_lt_of_mem hv

end Batch

end SampleSchema
