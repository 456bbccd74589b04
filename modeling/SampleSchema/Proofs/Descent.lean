import SampleSchema.Proofs.Holdings
/-!
# The node at a position

A position leads to a sub-schema of a document, to the values of a batch that reach it, and to a
node of a tree. This module ties the last two to the first, from any tree on, not only from a fresh
one as `Document.sub?_ofBatch` does.

* `Node.sub?_observeAll`: a node that is there already observes exactly the values that reach its
  position.
* `Document.exists_of_sub?_assemble`: what a document shows at a position is the document of the
  node there.
* `Session.sub?_prescribe`: prescribed types are seen at the fields of the root, and nowhere else.
* `Document.Shows` lists what a document tells about the observations at its position; it does so
  unless the type of the position is prescribed (`Session.shows_assemble_prescribedAt`).
-/

namespace SampleSchema

/-! ## Look-ups in two tables -/

namespace Table

variable {α β : Type}

theorem get?_map (f : String → α → β) (name : String) (table : Table α) :
    get? name (table.map fun entry => (entry.1, f entry.1 entry.2)) =
      (table.get? name).map (f name) := by
  induction table with
  | nil => rfl
  | cons first rest ih =>
    obtain ⟨key, entry⟩ := first
    by_cases hkey : key = name
    · simp [get?, hkey]
    · simp [get?, hkey, ih]

/-- Tables with the same names in the same order are looked up in step. -/
theorem rel_get?_of_forall₂ {R : α → β → Prop} {table : Table α} {other : Table β}
    (h : List.Forall₂ (fun entry entry' => entry.1 = entry'.1 ∧ R entry.2 entry'.2) table other)
    (name : String) : Option.Rel R (table.get? name) (other.get? name) := by
  induction h with
  | nil => exact .none
  | cons hfirst _ ih =>
    rw [get?, get?, hfirst.1]
    split
    · exact .some hfirst.2
    · exact ih

end Table

/-! ## Documents -/

namespace Document

theorem sub?_append (position more : Position) (document : Document) :
    document.sub? (position ++ more) = (document.sub? position).bind (sub? more) := by
  induction position generalizing document with
  | nil => rfl
  | cons step rest ih =>
    cases step with
    | none =>
      show (document.items.bind fun below => below.sub? (rest ++ more)) = _
      simp only [ih]
      exact (Option.bind_assoc _ _ _).symm
    | some name =>
      show ((Table.get? name document.properties).bind fun below => below.sub? (rest ++ more)) = _
      simp only [ih]
      exact (Option.bind_assoc _ _ _).symm

theorem Everywhere.of_sub? {P : Document → Prop} {document below : Document}
    (h : document.Everywhere P) {position : Position} (hbelow : document.sub? position = some below) :
    below.Everywhere P := by
  induction position generalizing document with
  | nil => exact Option.some.inj hbelow ▸ h
  | cons step rest ih =>
    cases step with
    | none =>
      obtain ⟨items, hitems, hrest⟩ := Option.bind_eq_some_iff.mp hbelow
      exact ih (h.items items hitems) hrest
    | some name =>
      obtain ⟨child, hchild, hrest⟩ := Option.bind_eq_some_iff.mp hbelow
      exact ih (h.properties _ (Table.mem_of_get?_eq_some hchild)) hrest

end Document

/-! ## Nodes -/

namespace Node

/-- The node at a position of a tree. -/
def sub? : Position → Node → Option Node
  | [], node => some node
  | none :: rest, node => node.item.bind (sub? rest)
  | some name :: rest, node => (Table.get? name node.properties).bind (sub? rest)

theorem Everywhere.of_sub? {P : Node → Prop} {node below : Node} (h : node.Everywhere P)
    {position : Position} (hbelow : node.sub? position = some below) : P below := by
  induction position generalizing node with
  | nil =>
    obtain rfl := Option.some.inj hbelow
    exact h.here
  | cons step rest ih =>
    cases step with
    | none =>
      obtain ⟨item, hitem, hrest⟩ := Option.bind_eq_some_iff.mp hbelow
      exact ih (h.item item hitem) hrest
    | some name =>
      obtain ⟨child, hchild, hrest⟩ := Option.bind_eq_some_iff.mp hbelow
      exact ih (h.properties (name, child) (Table.mem_of_get?_eq_some hchild)) hrest

variable {observer : Observer} {node : Node} (vs : Batch)

theorem item_observeAll_of_eq_some {item : Node} (h : node.item = some item) :
    (node.observeAll observer vs).item = some (item.observeAll observer vs.elements) := by
  rw [item_observeAll, h, Option.getD_some]
  split
  · rfl
  · rename_i harray
    -- without an array there is no element, and nothing is observed
    have hnone : vs.elements = [] := List.eq_nil_iff_forall_not_mem.mpr fun w hw =>
      harray (Batch.hasArray_of_mem_elements hw)
    rw [hnone, observeAll_nil]

theorem get?_properties_observeAll_of_eq_some {name : String} {child : Node}
    (h : Table.get? name node.properties = some child) :
    Table.get? name (node.observeAll observer vs).properties =
      some (child.observeAll observer (vs.named name)) := by
  rw [get?_properties_observeAll, h, Option.getD_some]
  split
  · rename_i hnone
    rw [hnone, observeAll_nil]
  · rfl

/-- The node at a position observes the values that reach the position. -/
theorem sub?_observeAll {position : Position} {below : Node} (h : node.sub? position = some below) :
    (node.observeAll observer vs).sub? position =
      some (below.observeAll observer (vs.reached position)) := by
  induction position generalizing node vs with
  | nil => exact congrArg (fun node => some (observeAll observer vs node)) (Option.some.inj h)
  | cons step rest ih =>
    cases step with
    | none =>
      obtain ⟨item, hitem, hrest⟩ := Option.bind_eq_some_iff.mp h
      rw [sub?, item_observeAll_of_eq_some vs hitem, Option.bind_some, Batch.reached]
      exact ih vs.elements hrest
    | some name =>
      obtain ⟨child, hchild, hrest⟩ := Option.bind_eq_some_iff.mp h
      rw [sub?, get?_properties_observeAll_of_eq_some vs hchild, Option.bind_some, Batch.reached]
      exact ih (vs.named name) hrest

end Node

/-! ## Documents of nodes -/

namespace Document

/-- A document shows all properties of its node, or none. -/
theorem properties_assemble (version : Option Value) (node : Node) :
    (assemble version node).properties = [] ∨
      (assemble version node).properties =
        node.properties.map fun child => (child.1, assemble none child.2) := by
  rw [assemble_eq]
  split
  · unfold ofOverride
    split
    · exact .inl rfl
    · split
      · exact .inl rfl
      · split
        · exact .inr rfl
        · exact .inl rfl
  · unfold ofObservations
    dsimp only
    split
    · exact .inr rfl
    · exact .inl rfl

theorem items_assemble (version : Option Value) (node : Node) :
    ∀ items ∈ (assemble version node).items, ∃ item ∈ node.item, items = assemble none item := by
  intro items hitems
  have hmem : items ∈ node.item.map (assemble none) := by
    rw [assemble_eq] at hitems
    split at hitems
    · exact (parts_ofOverride _ _ _ _).1 items hitems
    · exact (parts_ofObservations _ _ _ _).1 items hitems
  obtain ⟨item, hitem, hdocument⟩ := Option.map_eq_some_iff.mp hmem
  exact ⟨item, hitem, hdocument.symm⟩

theorem get?_properties_assemble {version : Option Value} {node : Node} {name : String}
    {child : Document} (h : Table.get? name (assemble version node).properties = some child) :
    ∃ below, Table.get? name node.properties = some below ∧ child = assemble none below := by
  rcases properties_assemble version node with hnone | hall
  · rw [hnone] at h
    exact nomatch h
  · rw [hall, Table.get?_map fun _ => assemble none] at h
    obtain ⟨below, hbelow, hdocument⟩ := Option.map_eq_some_iff.mp h
    exact ⟨below, hbelow, hdocument.symm⟩

/-- What a document shows at a position is the document of the node there. -/
theorem exists_of_sub?_assemble {version : Option Value} {node : Node} {position : Position}
    {document : Document} (h : sub? position (assemble version node) = some document) :
    ∃ version below, node.sub? position = some below ∧ document = assemble version below := by
  induction position generalizing version node with
  | nil => exact ⟨version, node, rfl, (Option.some.inj h).symm⟩
  | cons step rest ih =>
    cases step with
    | none =>
      obtain ⟨items, hitems, hrest⟩ := Option.bind_eq_some_iff.mp h
      obtain ⟨item, hitem, rfl⟩ := items_assemble version node items hitems
      obtain ⟨version, below, hbelow, hdocument⟩ := ih hrest
      exact ⟨version, below, Option.bind_eq_some_iff.mpr ⟨item, hitem, hbelow⟩, hdocument⟩
    | some name =>
      obtain ⟨child, hchild, hrest⟩ := Option.bind_eq_some_iff.mp h
      obtain ⟨under, hunder, rfl⟩ := get?_properties_assemble hchild
      obtain ⟨version, below, hbelow, hdocument⟩ := ih hrest
      exact ⟨version, below, Option.bind_eq_some_iff.mpr ⟨under, hunder, hbelow⟩, hdocument⟩

/-! ## What a document tells about the observations -/

/-- A document tells what was observed at its node. Its parts are left out, but for the names of the
properties. -/
structure Shows (document : Document) (node : Node) : Prop where
  type : document.type = typeOf node
  propertyNames : Table.names document.properties =
    if node.primaryType? = some "object" then Table.names node.properties else []
  required : document.required =
    if node.primaryType? = some "object" then node.required.map .str else []
  format : document.format =
    if node.primaryType? = some "string" then node.format?.bind Value.truthy? else none
  constant : document.constant = node.constant?
  exemplar : document.exemplar = node.exemplar

theorem shows_ofObservations (version : Option Value) (node : Node) (items : Option Document)
    {properties : List (String × Document)}
    (hnames : Table.names properties = Table.names node.properties) :
    (ofObservations version node items properties).Shows node where
  type := rfl
  propertyNames := by
    unfold ofObservations
    dsimp only
    split
    · exact hnames
    · rfl
  required := rfl
  format := rfl
  constant := rfl
  exemplar := rfl

theorem tells_ofOverride (version : Option Value) (type : String) (items : Option Document)
    (properties : List (String × Document)) :
    let document := ofOverride version type items properties
    document.required = [] ∧ document.constant = none ∧
      document.format = if type = "datetime" then some (.str "date-time") else none := by
  unfold ofOverride
  split
  · exact ⟨rfl, rfl, rfl⟩
  · split
    · exact ⟨rfl, rfl, rfl⟩
    · split
      · exact ⟨rfl, rfl, rfl⟩
      · exact ⟨rfl, rfl, rfl⟩

end Document

/-! ## Prescribed types -/

/-- The type that is prescribed for a position. Only fields of the root can have one. -/
def Options.typeAt? (options : Options) : Position → Option String
  | [some name] => (Table.get? name options.predefined).filter (· != "")
  | _ => none

namespace Session

/-- The node at a position, once the types of a tree are prescribed. -/
def prescribedAt (predefined : List (String × String)) : Position → Node → Node
  | [], node => prescribe predefined node
  | [some name], node => prescribed predefined name node
  | _, node => node

theorem sub?_prescribe (predefined : List (String × String)) (position : Position) (node : Node) :
    (prescribe predefined node).sub? position =
      (node.sub? position).map (prescribedAt predefined position) := by
  match position with
  | [] => rfl
  | none :: rest => exact Option.map_id'.symm
  | [some name] =>
    rw [Node.sub?, Node.sub?, properties_prescribe, Table.get?_map]
    cases Table.get? name node.properties <;> rfl
  | some name :: step :: rest =>
    rw [Node.sub?, Node.sub?, properties_prescribe, Table.get?_map]
    -- prescription leaves the parts of a field alone
    cases Table.get? name node.properties with
    | none => rfl
    | some child => cases step <;> exact Option.map_id'.symm

theorem override_prescribedAt (options : Options) (position : Position) {node : Node}
    (h : node.override = none) :
    (prescribedAt options.predefined position node).override.filter (· != "") =
      options.typeAt? position := by
  match position with
  | [] =>
    show node.override.filter _ = none
    rw [h]
    rfl
  | [some name] =>
    show ((Table.get? name options.predefined).or node.override).filter _ = _
    rw [h, Option.or_none]
    rfl
  | none :: rest =>
    show node.override.filter _ = none
    rw [h]
    rfl
  | some name :: step :: rest =>
    show node.override.filter _ = none
    rw [h]
    rfl

/-- Where no type is prescribed, the observations are shown. -/
theorem shows_assemble_prescribedAt {options : Options} {position : Position}
    (htype : options.typeAt? position = none) (version : Option Value) {node : Node}
    (hnode : node.override = none) :
    (Document.assemble version (prescribedAt options.predefined position node)).Shows node := by
  have hfilter := override_prescribedAt options position hnode
  rw [htype] at hfilter
  have hshows : (Document.assemble version (prescribedAt options.predefined position node)).Shows
      (prescribedAt options.predefined position node) := by
    rw [Document.assemble_eq, hfilter]
    exact Document.shows_ofObservations version _ _ (Table.names_map (Document.assemble none) _)
  -- all that is shown is what it was before the types were prescribed
  match position with
  | [] =>
    have hnames : Table.names (prescribe options.predefined node).properties =
        Table.names node.properties := by
      rw [properties_prescribe, Table.names, List.map_map]
      rfl
    refine ⟨hshows.type, ?_, ?_, hshows.format, hshows.constant, hshows.exemplar⟩
    · rw [← hnames]
      exact hshows.propertyNames
    · rw [← required_prescribe options.predefined node]
      exact hshows.required
  | [some name] =>
    exact ⟨hshows.type, hshows.propertyNames, hshows.required, hshows.format, hshows.constant,
      hshows.exemplar⟩
  | none :: rest => exact hshows
  | some name :: step :: rest => exact hshows

/-- Where a type is prescribed, nothing is required, there is no constant, and the format is the one
of dates, if any. -/
theorem tells_assemble_prescribedAt {options : Options} {position : Position} {type : String}
    (htype : options.typeAt? position = some type) (version : Option Value) {node : Node}
    (hnode : node.override = none) :
    let document := Document.assemble version (prescribedAt options.predefined position node)
    document.required = [] ∧ document.constant = none ∧
      document.format = if type = "datetime" then some (.str "date-time") else none := by
  have hfilter := override_prescribedAt options position hnode
  rw [Document.assemble_eq, hfilter, htype]
  exact Document.tells_ofOverride version type _ _

end Session

end SampleSchema
