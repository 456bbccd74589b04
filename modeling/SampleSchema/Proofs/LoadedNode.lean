import SampleSchema.Proofs.Coherence
import SampleSchema.Proofs.Descent
/-!
# The node of a loaded document

Loading makes two things from one value: the document that is given out until a sample comes, and
the node that the samples are observed in. This module says what the two have in common, at every
position, and what becomes of it when samples come.

* `Document.LoadsAs` relates a document to the node that was made along with it.
  `LoadsAs.exists_members` says once what this means for one position; the lemmas behind it say it
  field by field. Every loaded node counts one sample, whether the document requires it or not:
  the root counts as one, and no property gets less than one.
* `Document.LoadsAs.exists_sub?`: the relation passes on to every position of the document.
* `Session.exists_loaded_of_sub?`: what is shown after a load and some samples, at any position of
  the loaded document, is the loaded node of that position with the values that reached it.
-/

namespace SampleSchema

namespace Document

/-- The document and the node are made from one value, as the root of a tree or as a part of it. -/
def LoadsAs (document : Document) (node : Node) : Prop :=
  ∃ v, Node.ofOutline 1 (.ofValue v) = .ok node ∧ ofValue v = .ok document

/-- The types that a position starts with when its document is loaded. -/
def loadedTypes (document : Document) : List String :=
  (Node.loadedTypes (document.type.getD .null)).toOption.getD []

/-- The constant that a position starts with: only a scalar is kept. -/
def loadedConstant? (document : Document) : Option Value :=
  document.constant.filter fun v => v.primitiveType.isScalar

theorem isScalar_of_mem_loadedConstant? {document : Document} {v : Value}
    (h : v ∈ document.loadedConstant?) : v.primitiveType.isScalar = true :=
  (Option.filter_eq_some_iff.mp h).2

end Document

theorem Node.propertySamples_one (isRequired : Bool) : propertySamples 1 isRequired = 1 := by
  cases isRequired <;> rfl

theorem Value.getD_nonNull? (v : Value) : v.nonNull?.getD .null = v := by
  cases v <;> rfl

theorem Value.filter_isScalar_nonNull? (v : Value) :
    (v.nonNull?.filter fun w => w.primitiveType.isScalar) =
      if v.primitiveType.isScalar then some v else none := by
  cases v <;> rfl

namespace Document.LoadsAs

variable {document : Document} {node : Node}

/-- What a document and its loaded node have in common, and how their parts go along. -/
theorem exists_members (h : document.LoadsAs node) :
    ∃ members types,
      Node.loadedTypes (Value.member "type" members) = .ok types ∧
      node = { Node.ofKeywords 1 types members with
        item := node.item, properties := node.properties } ∧
      document.type = (Value.member "type" members).nonNull? ∧
      document.format = (Value.member "format" members).truthy? ∧
      document.constant = (Value.member "const" members).nonNull? ∧
      document.exemplar = (Value.member "example" members).nonNull? ∧
      Option.Rel LoadsAs document.items node.item ∧
      List.Forall₂ (fun field child => field.1 = child.1 ∧ field.2.LoadsAs child.2)
        document.properties node.properties := by
  obtain ⟨v, hnode, hdocument⟩ := h
  cases v with
  | object members =>
    rw [Node.ofOutline_object] at hnode
    rw [ofValue_object] at hdocument
    obtain ⟨types, htypes, hnode⟩ := except_bind_eq_ok hnode
    obtain ⟨item, hitem, hnode⟩ := except_bind_eq_ok hnode
    obtain ⟨children, hchildren, hnode⟩ := except_bind_eq_ok hnode
    obtain ⟨properties, hproperties, hdocument⟩ := except_bind_eq_ok hdocument
    obtain ⟨items, hitems, hdocument⟩ := except_bind_eq_ok hdocument
    obtain rfl := Except.ok.inj hnode
    obtain rfl := Except.ok.inj hdocument
    refine ⟨members, types, htypes, rfl, rfl, rfl, rfl, rfl, ?_, ?_⟩
    · have hrel := rel_of_partOf hitems hitem
      show Option.Rel LoadsAs items item
      cases hrel with
      | none => exact .none
      | some hboth =>
        obtain ⟨w, hbelow, hunder⟩ := hboth
        exact .some ⟨w, hunder, hbelow⟩
    · refine (forall₂_of_partsOf hproperties hchildren).imp fun field child hboth => ?_
      obtain ⟨hname, w, hbelow, hunder⟩ := hboth
      rw [Node.propertySamples_one] at hunder
      exact ⟨hname, w, hunder, hbelow⟩
  | _ => exact nomatch hnode

/-! ## The fields of a loaded node -/

theorem samples_eq (h : document.LoadsAs node) : node.samples = 1 := by
  obtain ⟨v, hnode, -⟩ := h
  exact Node.samples_ofOutline hnode

theorem override_eq (h : document.LoadsAs node) : node.override = none := by
  obtain ⟨members, types, -, hnode, -⟩ := h.exists_members
  rw [hnode]
  rfl

theorem items (h : document.LoadsAs node) : Option.Rel LoadsAs document.items node.item := by
  obtain ⟨_, _, -, -, -, -, -, -, hitems, -⟩ := h.exists_members
  exact hitems

theorem properties (h : document.LoadsAs node) :
    List.Forall₂ (fun field child => field.1 = child.1 ∧ field.2.LoadsAs child.2)
      document.properties node.properties := by
  obtain ⟨_, _, -, -, -, -, -, -, -, hproperties⟩ := h.exists_members
  exact hproperties

theorem propertyNames_eq (h : document.LoadsAs node) :
    Table.names node.properties = Table.names document.properties :=
  (map_eq_map_of_forall₂ h.properties fun _ _ _ hboth => hboth.1).symm

theorem exemplar_eq (h : document.LoadsAs node) : node.exemplar = document.exemplar := by
  obtain ⟨members, types, -, hnode, -, -, -, hexemplar, -⟩ := h.exists_members
  rw [hnode, hexemplar]
  rfl

theorem constant_eq (h : document.LoadsAs node) :
    node.constant =
      match document.loadedConstant? with
      | some v => .candidate v.primitiveType v
      | none => .unset := by
  obtain ⟨members, types, -, hnode, -, -, hconstant, -⟩ := h.exists_members
  rw [hnode, loadedConstant?, hconstant, Value.filter_isScalar_nonNull?]
  show (if (Value.member "const" members).primitiveType.isScalar then
      Constant.candidate (Value.member "const" members).primitiveType
        (Value.member "const" members)
      else .unset) = _
  split <;> rfl

theorem constant?_eq (h : document.LoadsAs node) : node.constant? = document.loadedConstant? := by
  rw [Node.constant?, h.constant_eq]
  cases document.loadedConstant? <;> rfl

theorem loadedTypes_eq {members : List (String × Value)} {types : List String}
    (htypes : Node.loadedTypes (Value.member "type" members) = .ok types)
    (htype : document.type = (Value.member "type" members).nonNull?) :
    document.loadedTypes = types := by
  rw [loadedTypes, htype, Value.getD_nonNull?, htypes]
  rfl

theorem typeNames_eq (h : document.LoadsAs node) :
    Table.names node.types = document.loadedTypes.eraseDups := by
  obtain ⟨members, types, htypes, hnode, htype, -⟩ := h.exists_members
  rw [hnode, loadedTypes_eq htypes htype]
  exact Node.names_types_ofKeywords 1 types members

/-- All types of a loaded document count alike. -/
theorem count_eq_one (h : document.LoadsAs node) : ∀ count ∈ node.types, count.2 = 1 := by
  obtain ⟨members, types, -, hnode, -⟩ := h.exists_members
  rw [hnode]
  exact Node.mem_types_ofKeywords members

theorem types_of_str (h : document.LoadsAs node) {name : String}
    (htype : document.type = some (.str name)) : node.types = [(name, 1)] := by
  have hnames : Table.names node.types = [name] := by
    rw [h.typeNames_eq, loadedTypes, htype]
    rfl
  obtain ⟨count, hcount, hname⟩ := List.map_eq_singleton_iff.mp hnames
  have hone : count.2 = 1 := h.count_eq_one count (by rw [hcount]; exact List.mem_cons_self)
  rw [hcount, ← hname, ← hone]

/-- A format is kept beside the type string only, and accepts every text. -/
theorem formats_eq (h : document.LoadsAs node) :
    node.formats =
      if "string" ∈ document.loadedTypes then
        document.format.map fun name => [Detector.always name]
      else none := by
  obtain ⟨members, types, htypes, hnode, htype, hformat, -⟩ := h.exists_members
  rw [hnode, hformat, loadedTypes_eq htypes htype]
  show (if types.contains "string" then (Value.member "format" members).truthy? else none).map
      (fun name => [Detector.always name]) = _
  by_cases hstring : "string" ∈ types
  · simp [hstring]
  · simp [hstring]

/-! ## Positions -/

theorem exists_item (h : document.LoadsAs node) {items : Document}
    (hitems : document.items = some items) :
    ∃ item, node.item = some item ∧ items.LoadsAs item := by
  have hrel := h.items
  rw [hitems] at hrel
  cases hitem : node.item with
  | none =>
    rw [hitem] at hrel
    exact nomatch hrel
  | some item =>
    rw [hitem] at hrel
    exact ⟨item, rfl, Option.rel_some_some.mp hrel⟩

theorem exists_child (h : document.LoadsAs node) {name : String} {field : Document}
    (hfield : Table.get? name document.properties = some field) :
    ∃ child, Table.get? name node.properties = some child ∧ field.LoadsAs child := by
  have hrel := Table.rel_get?_of_forall₂ h.properties name
  rw [hfield] at hrel
  cases hchild : Table.get? name node.properties with
  | none =>
    rw [hchild] at hrel
    exact nomatch hrel
  | some child =>
    rw [hchild] at hrel
    exact ⟨child, rfl, Option.rel_some_some.mp hrel⟩

theorem exists_sub? (h : document.LoadsAs node) {position : Position} {below : Document}
    (hbelow : document.sub? position = some below) :
    ∃ under, node.sub? position = some under ∧ below.LoadsAs under := by
  induction position generalizing document node with
  | nil =>
    obtain rfl := Option.some.inj hbelow
    exact ⟨node, rfl, h⟩
  | cons step rest ih =>
    cases step with
    | none =>
      obtain ⟨items, hitems, hrest⟩ := Option.bind_eq_some_iff.mp hbelow
      obtain ⟨item, hitem, hloads⟩ := h.exists_item hitems
      obtain ⟨under, hunder, hfound⟩ := ih hloads hrest
      exact ⟨under, Option.bind_eq_some_iff.mpr ⟨item, hitem, hunder⟩, hfound⟩
    | some name =>
      obtain ⟨field, hfield, hrest⟩ := Option.bind_eq_some_iff.mp hbelow
      obtain ⟨child, hchild, hloads⟩ := h.exists_child hfield
      obtain ⟨under, hunder, hfound⟩ := ih hloads hrest
      exact ⟨under, Option.bind_eq_some_iff.mpr ⟨child, hchild, hunder⟩, hfound⟩

end Document.LoadsAs

/-- The root of what is loaded has the type object. -/
theorem Document.type_of_object {v : Value} {document : Document} (h : ofValue v = .ok document)
    (hobject : ∃ members, v = .object members ∧ Value.member "type" members = .str "object") :
    document.type = some (.str "object") := by
  obtain ⟨members, rfl, htype⟩ := hobject
  rw [ofValue_object] at h
  obtain ⟨properties, -, h⟩ := except_bind_eq_ok h
  obtain ⟨items, -, h⟩ := except_bind_eq_ok h
  rw [← Except.ok.inj h, htype]
  rfl

namespace Session

/-! ## After a load -/

/-- The document that is read once samples came: that of the loaded node, after it has observed
them. -/
theorem document_of_recent {options : Options} {calls : List Call} {v : Value} {vs : Batch}
    (hrecent : Recent.ofHistory (changes { options } calls) = ⟨some v, vs⟩) (hvs : vs ≠ [])
    {root : Node} (hroot : Node.ofOutline 1 (.ofValue v) = .ok root) :
    (run { options } calls).1.document = .ok (Document.assemble options.version
      (prescribe options.predefined (root.observeAll options.observer vs))) := by
  rw [(follows_ofHistory options calls).document_eq, hrecent,
    Recent.document_of_ne_nil options _ hvs, Recent.tree_of_ne_nil options _ hvs,
    Recent.start_of_loaded hroot]

/-- What is shown at a position of a loaded document, once samples came, is what the loaded node of
the position has become by observing the values that reached it. -/
theorem exists_loaded_of_sub? {options : Options} {calls : List Call} {v : Value} {vs : Batch}
    (hrecent : Recent.ofHistory (changes { options } calls) = ⟨some v, vs⟩) (hvs : vs ≠ [])
    {loaded document : Document} (hloaded : Document.ofValue v = .ok loaded)
    (hdocument : (run { options } calls).1.document = .ok document)
    {position : Position} {before after : Document} (hbefore : loaded.sub? position = some before)
    (hafter : document.sub? position = some after) :
    ∃ root node version, Node.ofOutline 1 (.ofValue v) = .ok root ∧
      root.sub? position = some node ∧ before.LoadsAs node ∧
      after = Document.assemble version (prescribedAt options.predefined position
        (node.observeAll options.observer (vs.reached position))) := by
  have hv : (Recent.ofHistory (changes { options } calls)).loaded = some v := by rw [hrecent]
  obtain ⟨⟨root, other⟩, hload⟩ := exists_loadable_of_recent hv
  obtain ⟨-, hroot, -⟩ := loadable_eq_ok_iff.mp hload
  have hloads : loaded.LoadsAs root := ⟨v, hroot, hloaded⟩
  obtain ⟨node, hnode, hbelow⟩ := hloads.exists_sub? hbefore
  rw [document_of_recent hrecent hvs hroot] at hdocument
  rw [← Except.ok.inj hdocument] at hafter
  obtain ⟨version, under, hunder, hshown⟩ := Document.exists_of_sub?_assemble hafter
  rw [sub?_prescribe, Node.sub?_observeAll vs hnode] at hunder
  obtain rfl := Option.some.inj hunder
  exact ⟨root, node, version, hroot, hnode, hbelow, hshown⟩

end Session

end SampleSchema
