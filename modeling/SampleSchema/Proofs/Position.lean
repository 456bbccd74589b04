import SampleSchema.Document.Assembly
import SampleSchema.Proofs.Accumulation
import SampleSchema.Proofs.Order
/-!
# Positions of a document

A position is a path from the root, each step of which leads to the items, or to a property if
it names one. The same path is followed on two sides: in a document it leads to a sub-schema,
if the document shows one there, and in a batch it leads to the values that reached the
position.

`sub?_ofBatch` ties the two sides together. Whatever sub-schema the document of a batch shows
at a position is the document of exactly the values that reached the position. So what is
proved of the document of an arbitrary batch holds at every position, without an induction of
its own.
-/

namespace SampleSchema

/-- A path from the root. Each step leads to a property, or to the items if it names none. -/
abbrev Position := List (Option String)

/-- The values of a batch that reach a position. -/
def Batch.reached : Position → Batch → Batch
  | [], vs => vs
  | none :: rest, vs => reached rest vs.elements
  | some name :: rest, vs => reached rest (vs.named name)

theorem Batch.everywhere_reached {test : Value → Bool} (position : Position) {vs : Batch}
    (h : ∀ v ∈ vs, v.everywhere test = true) :
    ∀ w ∈ vs.reached position, w.everywhere test = true := by
  induction position generalizing vs with
  | nil => exact h
  | cons step rest ih =>
    cases step with
    | none => exact ih (everywhere_elements h)
    | some name => exact ih (everywhere_named name h)

namespace Document

/-- The sub-schema that a document shows at a position. -/
def sub? : Position → Document → Option Document
  | [], document => some document
  | none :: rest, document => document.items.bind (sub? rest)
  | some name :: rest, document => (Table.get? name document.properties).bind (sub? rest)

/-! ## The document of a node, field by field -/

theorem assembleItem_eq_map (item : Option Node) :
    assembleItem item = item.map (assemble none) := by
  cases item <;> rfl

theorem assembleProperties_eq_map (properties : List (String × Node)) :
    assembleProperties properties =
      properties.map fun child => (child.1, assemble none child.2) := by
  induction properties with
  | nil => rfl
  | cons child rest ih =>
    obtain ⟨name, child⟩ := child
    rw [assembleProperties, ih, List.map_cons]

theorem assemble_eq (version : Option Value) (node : Node) :
    assemble version node =
      match node.override.filter (· != "") with
      | some type =>
        ofOverride version type (node.item.map (assemble none))
          (node.properties.map fun child => (child.1, assemble none child.2))
      | none =>
        ofObservations version node (node.item.map (assemble none))
          (node.properties.map fun child => (child.1, assemble none child.2)) := by
  obtain ⟨samples, strings, types, formats, constant, exemplar, item, properties, override⟩ := node
  rw [← assembleItem_eq_map, ← assembleProperties_eq_map]
  rfl

theorem assemble_of_override_eq_none (version : Option Value) {node : Node}
    (h : node.override = none) :
    assemble version node =
      ofObservations version node (node.item.map (assemble none))
        (node.properties.map fun child => (child.1, assemble none child.2)) := by
  rw [assemble_eq, h]
  rfl

/-! ## The document of a batch -/

variable (observer : Observer) (version : Option Value) (vs : Batch)

/-- The document of a fresh node that observed a batch. -/
def ofBatch : Document :=
  assemble version (Node.observeAll observer vs {})

theorem ofBatch_eq :
    ofBatch observer version vs =
      ofObservations version (Node.observeAll observer vs {})
        (if vs.hasArray then some (ofBatch observer none vs.elements) else none)
        (vs.fieldNames.eraseDups.map fun name =>
          (name, ofBatch observer none (vs.named name))) := by
  rw [ofBatch, assemble_of_override_eq_none version (Node.override_observeAll observer vs {}),
    Node.item_observeAll_fresh, Node.properties_observeAll_fresh, List.map_map]
  congr 1
  split <;> rfl

theorem eq_of_items_ofBatch {child : Document}
    (h : (ofBatch observer version vs).items = some child) :
    vs.hasArray = true ∧ child = ofBatch observer none vs.elements := by
  rw [ofBatch_eq] at h
  simp only [ofObservations] at h
  split at h
  · split at h
    · rename_i harray
      exact ⟨harray, (Option.some.inj h).symm⟩
    · simp at h
  · simp at h

theorem eq_of_get?_properties_ofBatch {name : String} {child : Document}
    (h : Table.get? name (ofBatch observer version vs).properties = some child) :
    name ∈ vs.fieldNames ∧ child = ofBatch observer none (vs.named name) := by
  rw [ofBatch_eq] at h
  simp only [ofObservations] at h
  split at h
  · rw [Table.get?_map_names] at h
    split at h
    · rename_i hmem
      exact ⟨List.mem_eraseDups.mp hmem, (Option.some.inj h).symm⟩
    · simp at h
  · simp [Table.get?] at h

/-- **A sub-schema describes the values that reached it.** At every position that the document
of a batch shows stands the document of the values that reached the position. -/
theorem sub?_ofBatch {position : Position} {document : Document}
    (h : sub? position (ofBatch observer version vs) = some document) :
    ∃ version, document = ofBatch observer version (vs.reached position) := by
  induction position generalizing version vs with
  | nil => exact ⟨version, (Option.some.inj h).symm⟩
  | cons step rest ih =>
    cases step with
    | none =>
      obtain ⟨child, hchild, hrest⟩ := Option.bind_eq_some_iff.mp h
      -- what is shown one step down is the document of the batch one step down
      obtain ⟨-, rfl⟩ := eq_of_items_ofBatch observer version vs hchild
      exact ih none vs.elements hrest
    | some name =>
      obtain ⟨child, hchild, hrest⟩ := Option.bind_eq_some_iff.mp h
      obtain ⟨-, rfl⟩ := eq_of_get?_properties_ofBatch observer version vs hchild
      exact ih none (vs.named name) hrest

end Document

/-! ## The types of a batch -/

namespace Node

variable (observer : Observer) (vs : Batch)

theorem names_types_observeAll_fresh :
    Table.names (observeAll observer vs {}).types = vs.tags.eraseDups := by
  rw [types_observeAll_fresh, Table.names, List.map_map]
  exact List.map_id _

theorem mem_tags_of_primaryType?_eq_some {type : String}
    (h : (observeAll observer vs {}).primaryType? = some type) : type ∈ vs.tags := by
  have hmem := mem_names_of_primaryType?_eq_some h
  rwa [names_types_observeAll_fresh, List.mem_eraseDups] at hmem

theorem exists_primaryType?_eq_some (hvs : vs ≠ []) :
    ∃ type, (observeAll observer vs {}).primaryType? = some type := by
  cases h : (observeAll observer vs {}).primaryType? with
  | some type => exact ⟨type, rfl⟩
  | none =>
    have hnames := names_types_observeAll_fresh observer vs
    rw [primaryType?_eq_none_iff.mp h] at hnames
    -- the first value was counted, so the table of types is not empty
    obtain ⟨v, rest, rfl⟩ := List.exists_cons_of_ne_nil hvs
    have hmem : v.primitiveType.name ∈ (Batch.tags (v :: rest)).eraseDups :=
      List.mem_eraseDups.mpr List.mem_cons_self
    rw [← hnames] at hmem
    simp at hmem

end Node

end SampleSchema
