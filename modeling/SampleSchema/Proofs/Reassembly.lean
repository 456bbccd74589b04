import SampleSchema.Proofs.LoadedNode
/-!
# What a load keeps of a document

A field that the samples after a load do not touch is described by its loaded node. This module
says what that description is, at every depth.

* `Document.reloaded` is computed from the document alone. All listed types start level, so the
  first of them by name leads: only the body that belongs to it is kept. All properties start level
  with their parent, so all of them are required.
* `Document.assemble_of_loadsAs`: it is what the loaded node is described by.
-/

namespace SampleSchema

/-! ## Types that are equally frequent -/

theorem head?_insertAscending (name : String) (names : List String) :
    (insertAscending id name names).head? =
      some (match names.head? with
        | some first => if name ≤ first then name else first
        | none => name) := by
  cases names with
  | nil => rfl
  | cons first rest =>
    rw [insertAscending, List.head?_cons]
    show (if name ≤ first then _ else _ : List String).head? =
      some (if name ≤ first then name else first)
    split <;> rfl

namespace Node

/-- Of equally frequent types, the first by name leads. -/
theorem map_dominant?_of_level {counts : List (String × Nat)} {samples : Nat}
    (hlevel : ∀ count ∈ counts, count.2 = samples) :
    (dominant? counts).map (·.1) = (ascending id (Table.names counts)).head? := by
  induction counts with
  | nil => rfl
  | cons count rest ih =>
    obtain ⟨hcount, hrest⟩ := List.forall_mem_cons.mp hlevel
    have hbelow := ih hrest
    rw [Table.names_cons, ascending, head?_insertAscending, ← hbelow]
    cases hbest : dominant? rest with
    | none => rw [dominant?, hbest]; rfl
    | some best =>
      have hsamples : best.2 = count.2 := by
        rw [hcount]
        exact hrest best (mem_of_dominant?_eq_some hbest)
      have houtranks : outranks best count = true ↔ ¬ count.1 ≤ best.1 := by
        rw [outranks_iff, hsamples, String.not_le]
        simp
      rw [dominant?, hbest]
      dsimp only [Option.map_some]
      by_cases hle : count.1 ≤ best.1
      · rw [if_neg fun h => houtranks.mp h hle, if_pos hle]
        rfl
      · rw [if_pos (houtranks.mpr hle), if_neg hle]
        rfl

end Node

namespace Document

/-! ## Type keywords -/

theorem eq_nil_or_singleton {names : List String} (h : names.length ≤ 1) :
    names = [] ∨ ∃ name, names = [name] := by
  rcases names with _ | ⟨first, _ | ⟨second, rest⟩⟩
  · exact .inl rfl
  · exact .inr ⟨first, rfl⟩
  · simp at h

/-- The type keyword for some types. -/
def typeKeyword : List String → Option Value
  | [] => none
  | [type] => some (.str type)
  | types => some (.list (types.map .str))

/-- The types that a document shows of its node. -/
def shownTypes (node : Node) : List String :=
  if 1 < node.types.length then node.observedTypes else Table.names node.types

theorem typeOf_eq (node : Node) : typeOf node = typeKeyword (shownTypes node) := by
  unfold typeOf shownTypes
  split
  · unfold typeKeyword
    rfl
  · rename_i hfew
    obtain ⟨samples, strings, types, formats, constant, exemplar, item, properties, override⟩ := node
    match types, hfew with
    | [], _ => rfl
    | [count], _ => rfl
    | first :: second :: rest, hfew => simp at hfew

theorem typeKeyword_eq_str_iff {types : List String} {name : String} :
    typeKeyword types = some (.str name) ↔ types = [name] := by
  match types with
  | [] => simp [typeKeyword]
  | [type] => simp [typeKeyword]
  | first :: second :: rest => simp [typeKeyword]

/-- A type keyword is read as the types that it was written for. -/
theorem loadedTypes_of_typeKeyword {document : Document} {types : List String}
    (htype : document.type = typeKeyword types)
    (hnull : "null" ∈ types → types.length ≤ 1) : document.loadedTypes = types := by
  rw [loadedTypes, htype]
  rcases types with _ | ⟨first, _ | ⟨second, rest⟩⟩
  · rfl
  · rfl
  · have hother : ∀ type ∈ first :: second :: rest, (type != "null") = true := by
      intro type htype
      rw [bne_iff_ne]
      rintro rfl
      simpa using hnull htype
    have hfilter : (first :: second :: rest).filter (· != "null") = first :: second :: rest :=
      List.filter_eq_self.mpr hother
    show (Node.loadedTypes (.list ((first :: second :: rest).map .str))).toOption.getD [] = _
    rw [Node.loadedTypes, allTexts?_map_str]
    dsimp only
    rw [hfilter]
    rfl

/-! ## The reloaded document -/

/-- The types of a position after a load, in ascending order. -/
def reloadedTypes (document : Document) : List String :=
  ascending id document.loadedTypes.eraseDups

mutual

/-- What becomes of a document that is loaded, where no sample comes after it. -/
def reloaded : Document → Document
  | ⟨_, type, properties, items, _, format, constant, exemplar, _⟩ =>
    let types := reloadedTypes { type }
    let leading := types.head?
    { type := typeKeyword types
      properties := if leading = some "object" then reloadedProperties properties else []
      items := if leading = some "array" then reloadedItems items else none
      required :=
        if leading = some "object" then (ascending id (Table.names properties)).map .str else []
      format := if leading = some "string" then format else none
      constant := loadedConstant? { constant }
      exemplar }
termination_by structural document => document

def reloadedItems : Option Document → Option Document
  | none => none
  | some items => some items.reloaded
termination_by structural items => items

def reloadedProperties : List (String × Document) → List (String × Document)
  | [] => []
  | (name, document) :: rest => (name, document.reloaded) :: reloadedProperties rest
termination_by structural properties => properties

end

theorem reloadedProperties_eq_map (properties : List (String × Document)) :
    reloadedProperties properties =
      properties.map fun field => (field.1, field.2.reloaded) := by
  induction properties with
  | nil => rfl
  | cons field rest ih =>
    obtain ⟨name, document⟩ := field
    rw [reloadedProperties, ih, List.map_cons]

theorem reloaded_eq (document : Document) :
    document.reloaded =
      { type := typeKeyword document.reloadedTypes
        properties :=
          if document.reloadedTypes.head? = some "object" then
            document.properties.map fun field => (field.1, field.2.reloaded)
          else []
        items :=
          if document.reloadedTypes.head? = some "array" then document.items.map reloaded else none
        required :=
          if document.reloadedTypes.head? = some "object" then
            (ascending id (Table.names document.properties)).map .str
          else []
        format := if document.reloadedTypes.head? = some "string" then document.format else none
        constant := document.loadedConstant?
        exemplar := document.exemplar } := by
  obtain ⟨version, type, properties, items, required, format, constant, exemplar, additional⟩ :=
    document
  rw [reloaded, reloadedProperties_eq_map]
  cases items <;> rfl

/-! ## The document of a loaded node -/

/-- Induction over a document along its parts. -/
theorem partsInduction {motive : Document → Prop}
    (step : ∀ document, (∀ items ∈ document.items, motive items) →
      (∀ field ∈ document.properties, motive field.2) → motive document)
    (document : Document) : motive document :=
  @Document.rec motive (fun properties => ∀ field ∈ properties, motive field.2)
    (fun items => ∀ below ∈ items, motive below) (fun field => motive field.2)
    (fun _ _ _ _ _ _ _ _ _ hproperties hitems => step _ hitems hproperties)
    (fun _ h => absurd h List.not_mem_nil)
    (fun _ _ hfirst hrest => List.forall_mem_cons.mpr ⟨hfirst, hrest⟩)
    (fun _ h => nomatch h)
    (fun _ hbelow _ h => Option.some.inj h ▸ hbelow)
    (fun _ _ hbelow => hbelow) document

namespace LoadsAs

variable {document : Document} {node : Node}

theorem primaryType?_eq (h : document.LoadsAs node) :
    node.primaryType? = document.reloadedTypes.head? := by
  rw [Node.primaryType?, Node.map_dominant?_of_level h.count_eq_one, h.typeNames_eq]
  rfl

/-- Null stands alone among the types of a loaded node. -/
theorem length_types_le_one (h : document.LoadsAs node) (hnull : "null" ∈ Table.names node.types) :
    node.types.length ≤ 1 := by
  obtain ⟨members, types, htypes, -, htype, -⟩ := h.exists_members
  have hnames := h.typeNames_eq
  rw [loadedTypes_eq htypes htype] at hnames
  have hlength : node.types.length = types.eraseDups.length := by
    rw [← hnames, Table.names, List.length_map]
  rw [hlength]
  rw [hnames, List.mem_eraseDups] at hnull
  unfold Node.loadedTypes at htypes
  split at htypes
  · obtain rfl := Except.ok.inj htypes
    exact absurd hnull List.not_mem_nil
  · obtain rfl := Except.ok.inj htypes
    exact Nat.le_refl 1
  · split at htypes
    · split at htypes
      · obtain rfl := Except.ok.inj htypes
        exact Nat.le_refl 1
      · -- null was taken out beside the other types
        obtain rfl := Except.ok.inj htypes
        exact absurd rfl (bne_iff_ne.mp (List.mem_filter.mp hnull).2)
    · cases htypes
  · cases htypes

theorem typeOf_eq (h : document.LoadsAs node) :
    typeOf node = typeKeyword document.reloadedTypes := by
  rw [Document.typeOf_eq, reloadedTypes, ← h.typeNames_eq, shownTypes]
  split
  · rename_i hmany
    have hother : ∀ type ∈ Table.names node.types, (type != PrimitiveType.null.name) = true := by
      intro type htype
      rw [bne_iff_ne]
      rintro rfl
      have hfew := h.length_types_le_one htype
      omega
    rw [Node.observedTypes, List.filter_eq_self.mpr hother]
  · rename_i hfew
    have hlength : (Table.names node.types).length ≤ 1 := by
      rw [Table.names, List.length_map]
      omega
    rcases eq_nil_or_singleton hlength with hnames | ⟨type, hnames⟩
    · rw [hnames]
      rfl
    · rw [hnames]
      rfl

/-- All properties of a loaded node are level with it. -/
theorem required_eq (h : document.LoadsAs node) :
    node.required = ascending id (Table.names document.properties) := by
  have hlevel : ∀ child ∈ node.properties, (child.2.samples == node.samples) = true := by
    intro child hchild
    obtain ⟨field, -, -, hbelow⟩ := exists_of_mem_right h.properties hchild
    rw [beq_iff_eq, hbelow.samples_eq, h.samples_eq]
  rw [Node.required, List.filter_eq_self.mpr hlevel, h.propertyNames_eq]

/-- A format that is kept at all is kept as it was. -/
theorem format?_eq (h : document.LoadsAs node) (hstring : "string" ∈ document.loadedTypes) :
    node.format?.bind Value.truthy? = document.format := by
  obtain ⟨members, types, -, -, -, hformat, -⟩ := h.exists_members
  rw [Node.format?, h.formats_eq, if_pos hstring]
  cases hname : document.format with
  | none => rfl
  | some name =>
    rw [hname] at hformat
    obtain ⟨-, htruthy⟩ := Value.truthy?_eq_some_iff.mp hformat.symm
    exact Value.truthy?_eq_some_iff.mpr ⟨rfl, htruthy⟩

end LoadsAs

/-- **A loaded node is described by the reloaded document**, which owes nothing to the counts that
the load invented. -/
theorem assemble_of_loadsAs {document : Document} {node : Node} (h : document.LoadsAs node) :
    assemble none node = document.reloaded := by
  induction document using partsInduction generalizing node with
  | step document ihItems ihProperties =>
    have hitems : node.item.map (assemble none) = document.items.map reloaded := by
      have hrel := h.items
      generalize document.items = items at hrel ihItems
      generalize node.item = item at hrel
      cases hrel with
      | none => rfl
      | some hloads => exact congrArg some (ihItems _ rfl hloads)
    have hproperties : (document.properties.map fun field => (field.1, field.2.reloaded)) =
        node.properties.map fun child => (child.1, assemble none child.2) := by
      refine map_eq_map_of_forall₂ h.properties fun field hfield child hboth => ?_
      rw [hboth.1, ihProperties field hfield hboth.2]
    have hformat : document.reloadedTypes.head? = some "string" →
        node.format?.bind Value.truthy? = document.format := by
      intro hleading
      have hmem : "string" ∈ document.reloadedTypes := List.mem_of_head? hleading
      rw [reloadedTypes, mem_ascending, List.mem_eraseDups] at hmem
      exact h.format?_eq hmem
    rw [assemble_of_override_eq_none none h.override_eq, hitems, ← hproperties, reloaded_eq,
      ofObservations, h.typeOf_eq, h.primaryType?_eq, h.required_eq, h.constant?_eq, h.exemplar_eq]
    simp only [ite_congr rfl hformat fun _ => rfl]

end Document

end SampleSchema
