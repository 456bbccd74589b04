import SampleSchema.Node
import SampleSchema.Proofs.Batch
/-!
# Observing one by one, and all at once

`Node.observe` changes a node value by value. This module says what a whole batch does to each
field of a node, from any node on, and then puts the fields together for a fresh node.

* The `_observe` lemmas are the step: one field after one value, whatever the value is.
* The `_observeAll` lemmas are the run, by induction on the batch. Counts and children grow in
  tables, so `Table.gather` describes them; the item node is the node of all elements together,
  because the elements of one array after another are one batch.
* `Node.ofBatch` is computed from the batch without any observation of its own, and
  `observeAll_fresh` says that a fresh node becomes exactly that.
-/

namespace SampleSchema

/-! ## The constant of a batch -/

namespace Constant

/-- The constant of a batch: nothing without a scalar, the first scalar if every later one has
its type and equals it, and disqualified otherwise. -/
def ofBatch (vs : Batch) : Constant :=
  match vs.scalars with
  | [] => .unset
  | first :: later =>
    if later.all fun v => first.primitiveType = v.primitiveType && first.sameScalar v then
      .candidate first.primitiveType first
    else .disqualified

theorem track_of_not_isScalar {v : Value} (h : v.primitiveType.isScalar = false)
    (constant : Constant) : constant.track v = constant := by
  unfold track
  rw [h]
  rfl

theorem foldl_track_disqualified (vs : Batch) : vs.foldl track .disqualified = .disqualified := by
  induction vs with
  | nil => rfl
  | cons v rest ih =>
    have hstep : track .disqualified v = .disqualified := by
      unfold track
      split <;> rfl
    rw [List.foldl_cons, hstep, ih]

theorem foldl_track_candidate (type : PrimitiveType) (value : Value) (vs : Batch) :
    vs.foldl track (.candidate type value) =
      if vs.scalars.all fun v => type = v.primitiveType && value.sameScalar v then
        .candidate type value
      else .disqualified := by
  induction vs with
  | nil => rfl
  | cons v rest ih =>
    rw [List.foldl_cons, Batch.scalars_cons]
    by_cases hs : v.primitiveType.isScalar = true
    · rw [if_pos hs, List.all_cons]
      by_cases hv : (decide (type = v.primitiveType) && value.sameScalar v) = true
      · have hstep : track (.candidate type value) v = .candidate type value := by
          simp [track, hs, hv]
        rw [hstep, ih, hv, Bool.true_and]
      · have hstep : track (.candidate type value) v = .disqualified := by
          simp [track, hs, hv]
        -- once disqualified, no later scalar matters
        rw [hstep, foldl_track_disqualified, Bool.not_eq_true _ |>.mp hv, Bool.false_and]
        rfl
    · rw [track_of_not_isScalar (Bool.not_eq_true _ |>.mp hs), ih, if_neg hs]

theorem foldl_track_unset (vs : Batch) : vs.foldl track .unset = ofBatch vs := by
  induction vs with
  | nil => rfl
  | cons v rest ih =>
    rw [List.foldl_cons, ofBatch, Batch.scalars_cons]
    by_cases hs : v.primitiveType.isScalar = true
    · -- the first scalar becomes the candidate, and the rest of the batch is held against it
      have hstep : track .unset v = .candidate v.primitiveType v := by simp [track, hs]
      rw [hstep, foldl_track_candidate, if_pos hs]
    · rw [track_of_not_isScalar (Bool.not_eq_true _ |>.mp hs), ih, ofBatch, if_neg hs]

end Constant

attribute [ext] Node

namespace Node

variable (observer : Observer) (v : Value) (vs : Batch) (node : Node)

/-! ## One value -/

theorem strings_observe :
    (node.observe observer v).strings =
      if v.primitiveType = .string then node.strings + 1 else node.strings := by
  cases v <;> simp [observe, record]

theorem types_observe :
    (node.observe observer v).types =
      Table.alter v.primitiveType.name (fun count => count.getD 0 + 1) node.types := by
  cases v <;> rfl

theorem formats_observe :
    (node.observe observer v).formats =
      if v.primitiveType = .string then
        some ((node.formats.getD observer.detectors).filter (·.accepts v.plainText))
      else node.formats := by
  cases v <;> simp [observe, record]

theorem constant_observe : (node.observe observer v).constant = node.constant.track v := by
  cases v <;> rfl

theorem exemplar_observe :
    (node.observe observer v).exemplar =
      if observer.keepsExamples && node.samples == 0 then v.nonNull? else node.exemplar := by
  cases v <;> rfl

theorem override_observe : (node.observe observer v).override = node.override := by
  cases v <;> rfl

theorem item_observe :
    (node.observe observer v).item =
      if v.primitiveType = .array then
        some ((node.item.getD {}).observeAll observer v.elements)
      else node.item := by
  cases v with
  | list items => simp [observe, Value.primitiveType, Value.elements, observeItems_eq_observeAll]
  | tuple items => simp [observe, Value.primitiveType, Value.elements, observeItems_eq_observeAll]
  | float x =>
    -- the type of a binary number is computed, and is no array either way
    have hne : (Value.float x).primitiveType ≠ .array := by
      simp only [Value.primitiveType]
      split <;> decide
    rw [if_neg hne]
    rfl
  | _ => rfl

theorem observeMembers_eq_gather (members : List (String × Value))
    (children : List (String × Node)) :
    observeMembers observer members children =
      Table.gather {} (fun child w => child.observe observer w)
        (members.filter fun member => !member.2.isNull) children := by
  induction members generalizing children with
  | nil => rfl
  | cons member rest ih =>
    obtain ⟨name, value⟩ := member
    rw [observeMembers, ih]
    by_cases hnull : value.isNull = true
    · rw [if_pos hnull, List.filter_cons_of_neg (by simp [hnull])]
    · rw [if_neg hnull, List.filter_cons_of_pos (by simp [hnull])]
      rfl

theorem properties_observe :
    (node.observe observer v).properties =
      Table.gather {} (fun child w => child.observe observer w) v.givenMembers
        node.properties := by
  cases v with
  | object members => exact observeMembers_eq_gather observer members node.properties
  | _ => rfl

/-! ## A whole batch -/

theorem strings_observeAll :
    (node.observeAll observer vs).strings = node.strings + vs.texts.length := by
  induction vs generalizing node with
  | nil => rfl
  | cons v rest ih =>
    rw [observeAll_cons, ih, strings_observe, Batch.texts_cons]
    by_cases h : v.primitiveType = .string
    · rw [if_pos h, if_pos h, List.length_cons]
      omega
    · rw [if_neg h, if_neg h]

theorem types_observeAll :
    (node.observeAll observer vs).types =
      Table.gather 0 (fun count _ => count + 1) (vs.map fun v => (v.primitiveType.name, v))
        node.types := by
  induction vs generalizing node with
  | nil => rfl
  | cons v rest ih =>
    rw [observeAll_cons, ih, types_observe]
    rfl

/-- The formats are left alone until a text comes; then those that accept every text stay, in
their order. -/
theorem formats_observeAll :
    (node.observeAll observer vs).formats =
      if vs.texts = [] then node.formats
      else some ((node.formats.getD observer.detectors).filter fun format =>
        vs.texts.all format.accepts) := by
  induction vs generalizing node with
  | nil => rfl
  | cons v rest ih =>
    rw [observeAll_cons, ih, formats_observe, Batch.texts_cons]
    by_cases h : v.primitiveType = .string
    · -- the formats that v leaves are what the later texts go on with
      rw [if_pos h, if_pos h, if_neg (List.cons_ne_nil _ _), Option.getD_some]
      by_cases hrest : Batch.texts rest = []
      · simp [hrest]
      · rw [if_neg hrest, List.filter_filter]
        simp only [List.all_cons, Bool.and_comm]
    · rw [if_neg h, if_neg h]

theorem constant_observeAll :
    (node.observeAll observer vs).constant = vs.foldl Constant.track node.constant := by
  induction vs generalizing node with
  | nil => rfl
  | cons v rest ih => rw [observeAll_cons, ih, constant_observe, List.foldl_cons]

theorem exemplar_observeAll :
    (node.observeAll observer vs).exemplar =
      if observer.keepsExamples = true ∧ node.samples = 0 ∧ vs ≠ [] then
        vs.head?.bind Value.nonNull?
      else node.exemplar := by
  induction vs generalizing node with
  | nil => simp
  | cons v rest ih =>
    -- the node has a sample now, so the rest of the batch changes nothing
    rw [observeAll_cons, ih, if_neg (by simp), exemplar_observe]
    simp

theorem override_observeAll : (node.observeAll observer vs).override = node.override := by
  induction vs generalizing node with
  | nil => rfl
  | cons v rest ih => rw [observeAll_cons, ih, override_observe]

/-- The item node sees the elements of all arrays as one batch. -/
theorem item_observeAll :
    (node.observeAll observer vs).item =
      if vs.hasArray then some ((node.item.getD {}).observeAll observer vs.elements)
      else node.item := by
  induction vs generalizing node with
  | nil => rfl
  | cons v rest ih =>
    rw [observeAll_cons, ih, item_observe, Batch.elements_cons, Batch.hasArray_cons]
    by_cases h : v.primitiveType = .array
    · rw [if_pos h, decide_eq_true h, Bool.true_or, if_pos rfl, Option.getD_some,
        observeAll_append]
      by_cases hrest : Batch.hasArray rest = true
      · rw [if_pos hrest]
      · -- no array follows, and so no element
        have hnone : Batch.elements rest = [] :=
          List.eq_nil_iff_forall_not_mem.mpr fun w hw =>
            hrest (Batch.hasArray_of_mem_elements hw)
        rw [if_neg hrest, hnone, observeAll_nil]
    · have hnone : v.elements = [] :=
        List.eq_nil_iff_forall_not_mem.mpr fun w hw =>
          h (Value.primitiveType_eq_array_of_mem_elements hw)
      rw [if_neg h, decide_eq_false h, Bool.false_or, hnone, List.nil_append]

theorem properties_observeAll :
    (node.observeAll observer vs).properties =
      Table.gather {} (fun child w => child.observe observer w) vs.entries node.properties := by
  induction vs generalizing node with
  | nil => rfl
  | cons v rest ih =>
    rw [observeAll_cons, ih, properties_observe, Batch.entries_cons, Table.gather_append]

/-- The child of a name sees the members of that name as one batch. -/
theorem get?_properties_observeAll (name : String) :
    Table.get? name (node.observeAll observer vs).properties =
      if vs.named name = [] then Table.get? name node.properties
      else some (((Table.get? name node.properties).getD {}).observeAll observer
        (vs.named name)) := by
  rw [properties_observeAll, Table.get?_gather]
  rfl

/-! ## A fresh node -/

/-- What a batch says about its position, computed from the whole batch. The item node and the
children are those of the batches of the parts. -/
def ofBatch (observer : Observer) (vs : Batch) : Node where
  samples := vs.length
  strings := vs.texts.length
  types := vs.tags.eraseDups.map fun tag => (tag, vs.tags.count tag)
  formats :=
    if vs.texts = [] then none
    else some (observer.detectors.filter fun format => vs.texts.all format.accepts)
  constant := .ofBatch vs
  exemplar := if observer.keepsExamples then vs.head?.bind Value.nonNull? else none
  item := if vs.hasArray then some (observeAll observer vs.elements {}) else none
  properties := vs.fieldNames.eraseDups.map fun name =>
    (name, observeAll observer (vs.named name) {})
  override := none

theorem types_observeAll_fresh :
    (observeAll observer vs {}).types =
      vs.tags.eraseDups.map fun tag => (tag, vs.tags.count tag) := by
  have hnames : Table.names (vs.map fun v => (v.primitiveType.name, v)) = vs.tags := by
    simp [Table.names, Batch.tags]
  -- counting one by one from any start, so that the induction goes through
  have hcount : ∀ (tag : String) (vs : Batch) (count : Nat),
      (Table.valuesOf tag (vs.map fun v => (v.primitiveType.name, v))).foldl
        (fun count _ => count + 1) count = count + vs.tags.count tag := by
    intro tag vs
    induction vs with
    | nil => exact fun _ => rfl
    | cons v rest ih =>
      intro count
      by_cases h : v.primitiveType.name = tag
      · have := ih (count + 1)
        simp only [Table.valuesOf, Batch.tags, List.map_cons, h, List.count_cons_self,
          decide_true, List.filter_cons_of_pos, List.foldl_cons] at this ⊢
        omega
      · simpa [Table.valuesOf, Batch.tags, h] using ih count
  rw [types_observeAll, Table.gather_nil, hnames]
  refine List.map_congr_left fun tag _ => ?_
  rw [hcount, Nat.zero_add]

theorem properties_observeAll_fresh :
    (observeAll observer vs {}).properties =
      vs.fieldNames.eraseDups.map fun name =>
        (name, observeAll observer (vs.named name) {}) := by
  rw [properties_observeAll, Table.gather_nil]
  rfl

theorem item_observeAll_fresh :
    (observeAll observer vs {}).item =
      if vs.hasArray then some (observeAll observer vs.elements {}) else none :=
  item_observeAll observer vs {}

theorem constant_observeAll_fresh :
    (observeAll observer vs {}).constant = .ofBatch vs :=
  (constant_observeAll observer vs {}).trans (Constant.foldl_track_unset vs)

/-- **Observing one by one is observing all at once.** A fresh node that observed a batch, in
order, holds in every field what is computed from the whole batch: how many values there were,
how often each type occurred, the formats that all texts have, the constant, the example, and
the nodes of the elements and of the members of each name. -/
theorem observeAll_fresh : observeAll observer vs {} = ofBatch observer vs := by
  apply Node.ext
  case samples => rw [samples_observeAll]; exact Nat.zero_add _
  case strings => rw [strings_observeAll]; exact Nat.zero_add _
  case types => exact types_observeAll_fresh observer vs
  case formats => exact formats_observeAll observer vs {}
  case constant => exact constant_observeAll_fresh observer vs
  case exemplar =>
    rw [exemplar_observeAll, ofBatch]
    cases vs <;> simp
  case item => exact item_observeAll_fresh observer vs
  case properties => exact properties_observeAll_fresh observer vs
  case override => exact override_observeAll observer vs {}

end Node

end SampleSchema
