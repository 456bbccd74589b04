import SampleSchema.Proofs.Promotion
import SampleSchema.Proofs.Shape
/-!
# Items that no value was seen at

The items of an array that was always empty have an empty sub-schema, which loads as a node without
any observation but with one sample, like every loaded node. So what comes to be shown there is not
what a fresh node would show: the invented sample is one that no field was in, and that no example
was taken from.

* `Document.LoadsAs.eq_of_empty`: the node that is loaded for an empty sub-schema.
* `Node.observeAll_unseen`: after some values it differs from a fresh one in its count, and in that
  it has no example; so it requires nothing (`Node.required_observeAll_unseen`).
* `Session.items_after_load_of_empty`: what is shown where the items of a loaded document were
  empty is the document of the elements since, less its required names and its example.
* `Session.items_emptyRows`: so it is not the document of these elements.
-/

namespace SampleSchema

theorem Batch.reached_nil (position : Position) : reached position [] = [] := by
  induction position with
  | nil => rfl
  | cons step rest ih => cases step <;> exact ih

/-! ## The node of an empty sub-schema -/

namespace Document

/-- A loaded format stands for one string. -/
theorem LoadsAs.strings_eq {document : Document} {node : Node} (h : document.LoadsAs node) :
    node.strings = if node.formats.isSome then 1 else 0 := by
  obtain ⟨members, types, -, hnode, -⟩ := h.exists_members
  rw [hnode]
  simp only [Node.ofKeywords, Option.isSome_map]

/-- An empty sub-schema counts one sample, of which nothing is known. -/
theorem LoadsAs.eq_of_empty {node : Node} (h : LoadsAs {} node) : node = { samples := 1 } := by
  have hformats : node.formats = none := h.formats_eq
  apply Node.ext
  case samples => exact h.samples_eq
  case strings => rw [h.strings_eq, hformats]; rfl
  case types => exact List.map_eq_nil_iff.mp h.typeNames_eq
  case formats => exact hformats
  case constant => exact h.constant_eq
  case exemplar => exact h.exemplar_eq
  case item =>
    cases hitem : node.item with
    | none => rfl
    | some item =>
      have hrel := h.items
      rw [hitem] at hrel
      exact nomatch hrel
  case properties => exact List.map_eq_nil_iff.mp h.propertyNames_eq
  case override => exact h.override_eq

end Document

/-! ## What it comes to -/

namespace Node

variable (observer : Observer) (vs : Batch)

/-- The invented sample is counted, and it takes the place of the first value as an example. -/
theorem observeAll_unseen :
    observeAll observer vs { samples := 1 } =
      { observeAll observer vs {} with samples := vs.length + 1, exemplar := none } := by
  apply Node.ext
  case samples => rw [samples_observeAll]; exact Nat.add_comm 1 _
  case strings => rw [strings_observeAll, strings_observeAll]
  case types => rw [types_observeAll, types_observeAll]
  case formats => rw [formats_observeAll, formats_observeAll]
  case constant => rw [constant_observeAll, constant_observeAll]
  case exemplar => rw [exemplar_observeAll, if_neg fun h => nomatch h.2.1]
  case item => rw [item_observeAll, item_observeAll]
  case properties => rw [properties_observeAll, properties_observeAll]
  case override => rw [override_observeAll, override_observeAll]

/-- No field was in the invented sample. -/
theorem required_observeAll_unseen (hd : ∀ v ∈ vs, v.hasDistinctNames = true) :
    (observeAll observer vs { samples := 1 }).required = [] := by
  have hnames : (Table.names (Node.properties { samples := 1 })).Nodup := .nil
  exact List.eq_nil_iff_forall_not_mem.mpr fun _ =>
    not_mem_required_observeAll hnames Nat.one_pos List.not_mem_nil hd

end Node

namespace Document

/-- Only the required names and the example depend on how many samples there were. -/
theorem ofObservations_counted (version : Option Value) (node : Node) (samples : Nat)
    (exemplar : Option Value) (items : Option Document) (properties : List (String × Document)) :
    let counted : Node := { node with samples, exemplar }
    ofObservations version counted items properties =
      { ofObservations version node items properties with
        required := if node.primaryType? = some "object" then counted.required.map .str else []
        exemplar } :=
  rfl

/-- Without the invented sample, and with the example, the document would be that of the values. -/
theorem assemble_unseen (observer : Observer) (version : Option Value) {vs : Batch}
    (hd : ∀ v ∈ vs, v.hasDistinctNames = true) :
    assemble version (Node.observeAll observer vs { samples := 1 }) =
      { ofBatch observer version vs with required := [], exemplar := none } := by
  have hrequired := Node.required_observeAll_unseen observer vs hd
  have hoverride : ∀ node : Node, node.override = none →
      (Node.observeAll observer vs node).override = none :=
    fun node hnode => (Node.override_observeAll observer vs node).trans hnode
  rw [ofBatch, assemble_of_override_eq_none version (hoverride _ rfl),
    assemble_of_override_eq_none version (hoverride _ rfl)]
  rw [Node.observeAll_unseen] at hrequired ⊢
  rw [ofObservations_counted, hrequired, List.map_nil, ite_self]

theorem without_eq_self_iff (document : Document) :
    { document with required := [], exemplar := none } = document ↔
      document.required = [] ∧ document.exemplar = none := by
  constructor
  · intro h
    exact ⟨(congrArg required h).symm, (congrArg exemplar h).symm⟩
  · rintro ⟨hrequired, hexemplar⟩
    cases document
    obtain rfl : _ = [] := hrequired
    obtain rfl : _ = none := hexemplar
    rfl

end Document

namespace Session

theorem prescribedAt_items (predefined : List (String × String)) (position : Position)
    (node : Node) : prescribedAt predefined (position ++ [none]) node = node := by
  match position with
  | [] => rfl
  | none :: rest => rfl
  | [some name] => rfl
  | some name :: step :: rest => rfl

/-! ## After a load -/

/-- **Empty items come to be all but the document of the elements.** Take any calls of which the
last load and the samples behind it are left, and an array position whose items are empty in the
loaded document. What is shown for the items afterwards is the document of a fresh node that
observed the elements since, in order, except that it requires nothing and has no example. So it is
that document exactly if there is nothing to require and no example to keep. -/
theorem items_after_load_of_empty (options : Options) {calls : List Call}
    (hcalls : ∀ call ∈ calls, call.hasDistinctNames = true) {v : Value} {vs : Batch}
    (hrecent : Recent.ofHistory (changes { options } calls) = ⟨some v, vs⟩) {position : Position}
    (hreached : vs.reached (position ++ [none]) ≠ []) {loaded document : Document}
    (hloaded : Document.ofValue v = .ok loaded)
    (hdocument : (run { options } calls).1.document = .ok document)
    (hbefore : loaded.sub? (position ++ [none]) = some {}) {after : Document}
    (hafter : document.sub? (position ++ [none]) = some after) :
    let fresh := Document.ofBatch options.observer none (vs.reached (position ++ [none]))
    after = { fresh with required := [], exemplar := none } ∧
      (after = fresh ↔ fresh.required = [] ∧ fresh.exemplar = none) := by
  intro fresh
  have hsound : (Recent.ofHistory (changes { options } calls)).Sound Value.hasDistinctMembers :=
    sound_recent_run (fun call hcall _ _ hchange =>
      hasDistinctNames_of_change? (hcalls call hcall) hchange) _
  rw [hrecent] at hsound
  have hvs : vs ≠ [] := by
    rintro rfl
    exact hreached (Batch.reached_nil _)
  obtain ⟨root, node, version, hroot, -, hloads, hshown⟩ :=
    exists_loaded_of_sub? hrecent hvs hloaded hdocument hbefore hafter
  have hversion : after.version = none := by
    rw [document_of_recent hrecent hvs hroot] at hdocument
    rw [← Except.ok.inj hdocument] at hafter
    exact Document.version_of_sub?_assemble (by simp) hafter
  have hreachedNames : ∀ w ∈ vs.reached (position ++ [none]), w.hasDistinctNames = true :=
    Batch.everywhere_reached _ hsound.samples
  -- the loaded node has observed nothing, and no type is prescribed for it
  rw [hloads.eq_of_empty, prescribedAt_items, Document.assemble_unseen _ _ hreachedNames] at hshown
  have hnone : version = none := by
    rw [hshown] at hversion
    exact (Document.version_assemble version _).symm.trans hversion
  rw [hnone] at hshown
  refine ⟨hshown, ?_⟩
  rw [hshown]
  exact fresh.without_eq_self_iff

/-- An array of which no element was ever seen. -/
def emptyRows : Value :=
  .object [("type", .str "object"),
    ("properties", .object [("rows", .object [("type", .str "array"), ("items", .object [])])]),
    ("required", .list [.str "rows"])]

/-- Options under which examples are kept. -/
def exampleOptions : Options :=
  ⟨[], .unlimited, ⟨true, []⟩, none, ""⟩

/-- Two elements with a field in common, and a read between them. -/
def rowsCalls : List Call :=
  [.load emptyRows,
   .add (.object [("rows", .list [.object [("a", .int 1), ("b", .str "x")]])]),
   .readDocument,
   .add (.object [("rows", .list [.object [("a", .int 2)]])])]

def rows : Batch :=
  [.object [("a", .int 1), ("b", .str "x")], .object [("a", .int 2)]]

theorem items_after_load_rowsCalls :
    ∃ document after, (run { options := exampleOptions } rowsCalls).1.document = .ok document ∧
      document.sub? [some "rows", none] = some after ∧
      after = { Document.ofBatch exampleOptions.observer none rows with
        required := [], exemplar := none } := by
  have hcalls : ∀ call ∈ rowsCalls, call.hasDistinctNames = true := by decide
  have hrecent : Recent.ofHistory (changes { options := exampleOptions } rowsCalls) =
      ⟨some emptyRows,
        [.object [("rows", .list [.object [("a", .int 1), ("b", .str "x")]])],
         .object [("rows", .list [.object [("a", .int 2)]])]]⟩ := rfl
  exact ⟨_, _, rfl, rfl, (@items_after_load_of_empty exampleOptions rowsCalls hcalls emptyRows _
    hrecent [some "rows"] nofun _ _ rfl rfl rfl _ rfl).1⟩

/-- The items that were empty do not come to be the document of their elements: the field that all
elements have is not required, and there is no example. -/
theorem items_emptyRows :
    ∃ loaded document after,
      (run { options := exampleOptions } (rowsCalls.take 1)).1.document = .ok loaded ∧
      loaded.sub? [some "rows", none] = some {} ∧
      (run { options := exampleOptions } rowsCalls).1.document = .ok document ∧
      document.sub? [some "rows", none] = some after ∧
      after.required = [] ∧ after.exemplar = none ∧
      (Document.ofBatch exampleOptions.observer none rows).required = [.str "a"] ∧
      (Document.ofBatch exampleOptions.observer none rows).exemplar =
        some (.object [("a", .int 1), ("b", .str "x")]) :=
  ⟨_, _, _, rfl, rfl, rfl, rfl, rfl, rfl, rfl, rfl⟩

end Session

end SampleSchema
