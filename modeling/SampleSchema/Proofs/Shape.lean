import SampleSchema.Proofs.Revival
import SampleSchema.Proofs.Untouched
/-!
# The shape of a document

A keyword of a document belongs to a type, and the types are listed in one way only. This module
says so of the document of every tree, and follows it once around: from a tree to its document, to
the document that is read from its text, and to the tree that is loaded from that.

* `Document.WellFormed` is the shape of a single position, and `Document.Placed` adds what it owes
  to its place: that a property has a type, and that no part has a version.
* `Node.Supported` is what a node needs for it: a constant has a type that was counted, and a
  property has counted something.
* `Node.supported_observeAll`, `Document.placed_assemble`, `Document.Placed.reread` and
  `Document.LoadsAs.everywhere_supported` are the four steps around.
-/

namespace SampleSchema

/-! ## Well formed documents -/

namespace Document

/-- The document of a position with these types. The types ascend, and null is not among several.
Each keyword stands beside its type, a constant beside its own, and the required names ascend and
are names of properties. -/
structure WellFormed (types : List String) (document : Document) : Prop where
  type : document.type = typeKeyword types
  ascending : types.Pairwise (· < ·)
  null : "null" ∈ types → types.length ≤ 1
  properties : document.properties ≠ [] → "object" ∈ types
  items : document.items ≠ none → "array" ∈ types
  format : document.format ≠ none → "string" ∈ types
  constant : ∀ v ∈ document.constant, v.primitiveType.name ∈ types
  required : ∃ names : List String, document.required = names.map .str ∧
    names.Pairwise (· < ·) ∧ names ⊆ Table.names document.properties

/-- A well formed document whose parts are where they may be. -/
structure Placed (document : Document) : Prop where
  wellFormed : ∃ types, document.WellFormed types
  properties : ∀ child ∈ document.properties, child.2.type ≠ none ∧ child.2.version = none
  items : ∀ items ∈ document.items, items.version = none

theorem typeKeyword_eq_none_iff {types : List String} : typeKeyword types = none ↔ types = [] := by
  match types with
  | [] => simp [typeKeyword]
  | [type] => simp [typeKeyword]
  | first :: second :: rest => simp [typeKeyword]

theorem WellFormed.loadedTypes_eq {types : List String} {document : Document}
    (h : document.WellFormed types) : document.loadedTypes = types :=
  loadedTypes_of_typeKeyword h.type h.null

end Document

/-! ## Nodes that support such documents -/

namespace Node

/-- The type of a constant was counted, and so was some type at every property. -/
structure Supported (node : Node) : Prop where
  coherent : node.Coherent
  constant : ∀ type v, node.constant = .candidate type v → type.name ∈ Table.names node.types
  properties : ∀ child ∈ node.properties, child.2.Coherent ∧ child.2.types ≠ []

theorem supported_fresh : Supported {} :=
  ⟨coherent_fresh, nofun, nofun⟩

variable {observer : Observer} {node : Node}

theorem types_observeAll_ne_nil {vs : Batch} (hvs : vs ≠ []) :
    (node.observeAll observer vs).types ≠ [] := by
  obtain ⟨v, rest, rfl⟩ := List.exists_cons_of_ne_nil hvs
  have hmem : v.primitiveType.name ∈ Table.names (node.observeAll observer (v :: rest)).types :=
    mem_names_types_observeAll.mpr (.inr List.mem_cons_self)
  intro hnone
  rw [hnone] at hmem
  exact absurd hmem List.not_mem_nil

/-- **Some values keep a node supported.** A scalar that becomes the constant is counted under its
type, and a child is made only to observe something. -/
theorem supported_observeAll (vs : Batch) (hd : ∀ v ∈ vs, v.hasDistinctNames = true)
    (hnode : node.Supported) : (node.observeAll observer vs).Supported where
  coherent := coherent_observeAll vs hd hnode.coherent
  constant := by
    intro type v hcandidate
    obtain ⟨rfl, -⟩ := (coherent_observeAll vs hd hnode.coherent).constant type v hcandidate
    rw [constant_observeAll] at hcandidate
    rw [mem_names_types_observeAll]
    rcases constant_of_foldl_track hcandidate with hbefore | ⟨hmem, -⟩
    · exact .inl (hnode.constant _ v hbefore)
    · exact .inr (List.mem_map.mpr ⟨v, hmem, rfl⟩)
  properties := by
    intro child hchild
    have hafter : (node.observeAll observer vs).Coherent :=
      coherent_observeAll vs hd hnode.coherent
    have hget := Table.get?_eq_some_of_mem hafter.propertyNames hchild
    rw [get?_properties_observeAll] at hget
    split at hget
    · exact hnode.properties child (Table.mem_of_get?_eq_some hget)
    · rename_i hsome
      rw [← Option.some.inj hget]
      refine ⟨coherent_observeAll _ (Batch.everywhere_named child.1 hd) ?_,
        types_observeAll_ne_nil hsome⟩
      cases hbefore : Table.get? child.1 node.properties with
      | none => exact coherent_fresh
      | some before => exact (hnode.properties _ (Table.mem_of_get?_eq_some hbefore)).1

theorem everywhere_supported_observe (hnode : node.Everywhere Supported) {v : Value}
    (hd : v.hasDistinctNames = true) : (node.observe observer v).Everywhere Supported :=
  hnode.observeAll supported_fresh (fun _ hsupported => hsupported.coherent.propertyNames)
    (fun vs hvs _ hsupported => supported_observeAll vs hvs hsupported) [v]
    (List.forall_mem_singleton.mpr hd)

theorem everywhere_supported_prescribe (predefined : List (String × String))
    (hnode : node.Everywhere Supported) :
    (Session.prescribe predefined node).Everywhere Supported := by
  have hroot := hnode.here
  refine hnode.prescribe ⟨coherent_prescribe predefined hroot.coherent, hroot.constant, ?_⟩
    fun _ override h => ⟨h.coherent.overridden override, h.constant, h.properties⟩
  rw [Session.properties_prescribe]
  intro child hchild
  obtain ⟨entry, hentry, rfl⟩ := List.mem_map.mp hchild
  obtain ⟨hcoherent, hcounted⟩ := hroot.properties entry hentry
  exact ⟨hcoherent.overridden _, hcounted⟩

end Node

/-! ## From nodes to documents -/

namespace Document

/-- Where something was counted, a type is shown: null is passed over only beside others. -/
theorem shownTypes_ne_nil {node : Node} (hnames : (Table.names node.types).Nodup)
    (hcounted : node.types ≠ []) : shownTypes node ≠ [] := by
  unfold shownTypes
  split
  · rename_i hmany
    intro hnone
    have hnull : ∀ name ∈ Table.names node.types, name = "null" := by
      intro name hname
      by_contra hother
      have hmem := Node.mem_observedTypes.mpr ⟨hname, hother⟩
      rw [hnone] at hmem
      exact absurd hmem List.not_mem_nil
    have hreplicate := List.eq_replicate_of_mem hnull
    rw [hreplicate, List.nodup_replicate, Table.names, List.length_map] at hnames
    omega
  · exact fun hnone => hcounted (List.map_eq_nil_iff.mp hnone)

theorem name_ne_null_of_isScalar {type : PrimitiveType} (h : type.isScalar = true) :
    type.name ≠ "null" := by
  cases type with
  | null => exact nomatch h
  | _ => decide

theorem wellFormed_ofObservations (version : Option Value) {node : Node} (hnode : node.Supported)
    (items : Option Document) {properties : List (String × Document)}
    (hnames : Table.names properties = Table.names node.properties) :
    (ofObservations version node items properties).WellFormed (shownTypes node) where
  type := typeOf_eq node
  ascending := pairwise_shownTypes hnode.coherent.typeNames
  null := length_shownTypes_of_null
  properties := mem_shownTypes_of_ne (by decide)
  items := mem_shownTypes_of_ne (by decide)
  format := mem_shownTypes_of_ne (by decide)
  constant := by
    intro v hv
    have hconstant : node.constant? = some v := hv
    unfold Node.constant? at hconstant
    split at hconstant
    · rename_i type value hcandidate
      obtain rfl := Option.some.inj hconstant
      obtain ⟨rfl, hscalar⟩ := hnode.coherent.constant type value hcandidate
      exact mem_shownTypes (hnode.constant _ value hcandidate) (name_ne_null_of_isScalar hscalar)
    · exact nomatch hconstant
  required := by
    unfold ofObservations
    dsimp only
    split
    · refine ⟨node.required, rfl, Node.pairwise_lt_required_of_nodup hnode.coherent.propertyNames, ?_⟩
      intro name hname
      obtain ⟨child, hchild, -⟩ :=
        (Node.mem_required_iff_samples hnode.coherent.propertyNames).mp hname
      rw [hnames]
      exact List.mem_map.mpr ⟨_, Table.mem_of_get?_eq_some hchild, rfl⟩
    · exact ⟨[], rfl, .nil, List.nil_subset _⟩

theorem exists_wellFormed_ofOverride (version : Option Value) (override : String)
    (items : Option Document) (properties : List (String × Document)) :
    ∃ type, (ofOverride version override items properties).WellFormed [type] := by
  have hsingle : ∀ {document : Document} (type : String), document.type = some (.str type) →
      (document.properties ≠ [] → type = "object") → (document.items ≠ none → type = "array") →
      (document.format ≠ none → type = "string") → document.constant = none →
      document.required = [] → document.WellFormed [type] := by
    intro document type htype hproperties hitems hformat hconstant hrequired
    refine ⟨htype, List.pairwise_singleton _ type, fun _ => Nat.le_refl 1, ?_, ?_, ?_, ?_, ?_⟩
    · exact fun h => List.mem_singleton.mpr (hproperties h).symm
    · exact fun h => List.mem_singleton.mpr (hitems h).symm
    · exact fun h => List.mem_singleton.mpr (hformat h).symm
    · rw [hconstant]
      exact nofun
    · exact ⟨[], hrequired, .nil, List.nil_subset _⟩
  unfold ofOverride
  split
  · exact ⟨"string", hsingle _ rfl (absurd rfl) (absurd rfl) (fun _ => rfl) rfl rfl⟩
  · split
    · exact ⟨"array", hsingle _ rfl (absurd rfl) (fun _ => rfl) (absurd rfl) rfl rfl⟩
    · split
      · exact ⟨"object", hsingle _ rfl (fun _ => rfl) (absurd rfl) (absurd rfl) rfl rfl⟩
      · exact ⟨override, hsingle _ rfl (absurd rfl) (absurd rfl) (absurd rfl) rfl rfl⟩

theorem type_assemble_ne_none (version : Option Value) {node : Node} (hnode : node.Coherent)
    (hcounted : node.types ≠ []) : (assemble version node).type ≠ none := by
  rw [assemble_eq]
  split
  · obtain ⟨type, htype⟩ := exists_wellFormed_ofOverride version _ _ _
    rw [htype.type]
    exact Option.some_ne_none _
  · show typeOf node ≠ none
    rw [typeOf_eq, Ne, typeKeyword_eq_none_iff]
    exact shownTypes_ne_nil hnode.typeNames hcounted

theorem version_assemble (version : Option Value) (node : Node) :
    (assemble version node).version = version := by
  rw [assemble_eq]
  split
  · unfold ofOverride
    split
    · rfl
    · split
      · rfl
      · split <;> rfl
  · rfl

/-- The version belongs to the root alone. -/
theorem version_of_sub?_assemble {version : Option Value} {node : Node} {position : Position}
    (hposition : position ≠ []) {below : Document}
    (h : sub? position (assemble version node) = some below) : below.version = none := by
  induction position generalizing version node with
  | nil => exact absurd rfl hposition
  | cons step rest ih =>
    have hstep : ∃ under, sub? rest (assemble none under) = some below := by
      cases step with
      | none =>
        obtain ⟨items, hitems, hrest⟩ := Option.bind_eq_some_iff.mp h
        obtain ⟨item, -, rfl⟩ := items_assemble version node items hitems
        exact ⟨item, hrest⟩
      | some name =>
        obtain ⟨child, hchild, hrest⟩ := Option.bind_eq_some_iff.mp h
        obtain ⟨under, -, rfl⟩ := get?_properties_assemble hchild
        exact ⟨under, hrest⟩
    obtain ⟨under, hrest⟩ := hstep
    cases rest with
    | nil =>
      rw [← Option.some.inj hrest]
      exact version_assemble none under
    | cons next more => exact ih (List.cons_ne_nil next more) hrest

/-- **The document of a supported node is placed.** -/
theorem placed_assemble (version : Option Value) {node : Node} (hnode : node.Supported) :
    (assemble version node).Placed where
  wellFormed := by
    rw [assemble_eq]
    split
    · obtain ⟨type, htype⟩ := exists_wellFormed_ofOverride version _ _ _
      exact ⟨[type], htype⟩
    · exact ⟨_, wellFormed_ofObservations version hnode _
        (Table.names_map (assemble none) node.properties)⟩
  properties := by
    intro child hchild
    rcases properties_assemble version node with hnone | hall
    · rw [hnone] at hchild
      exact absurd hchild List.not_mem_nil
    · rw [hall] at hchild
      obtain ⟨below, hbelow, rfl⟩ := List.mem_map.mp hchild
      obtain ⟨hcoherent, hcounted⟩ := hnode.properties below hbelow
      exact ⟨type_assemble_ne_none none hcoherent hcounted, version_assemble none below.2⟩
  items := by
    intro items hitems
    obtain ⟨item, -, rfl⟩ := items_assemble version node items hitems
    exact version_assemble none item

theorem everywhere_placed_assemble (version : Option Value) {node : Node}
    (hnode : node.Everywhere Node.Supported) : (assemble version node).Everywhere Placed :=
  everywhere_assemble_of (fun _ => placed_assemble none) hnode (placed_assemble version hnode.here)

/-! ## From documents to the documents that are read -/

/-- A part is read as one with the same type and version. -/
theorem eq_of_toValue_eq {written read : Document} (h : read.toValue = written.toValue.plain) :
    read.type = written.type.map Value.plain ∧ read.version = written.version.map Value.plain := by
  rw [toValue_eq, toValue_eq, Value.plain_object] at h
  have hget := fun name => congrArg (Table.get? name) (Value.object.inj h)
  simp only [Table.get?_map fun _ => Value.plain] at hget
  obtain ⟨hversion, htype, -⟩ := get?_keywords read
  obtain ⟨hversion', htype', -⟩ := get?_keywords written
  rw [← hversion, ← htype, ← hversion', ← htype']
  exact ⟨hget "type", hget "$schema"⟩

theorem Reread.mem_propertyNames_iff {document other : Document} (h : Reread document other)
    {name : String} :
    name ∈ Table.names other.properties ↔ name ∈ Table.names document.properties := by
  have hnames : (toMembers other.properties).map Prod.fst =
      (ascending (·.1) (toMembers document.properties)).map Prod.fst := by
    rw [h.properties, writtenMembers, List.map_map]
    rfl
  have hmembers : ∀ properties : List (String × Document),
      (toMembers properties).map Prod.fst = Table.names properties := by
    intro properties
    rw [toMembers_eq_map, List.map_map]
    rfl
  rw [← hmembers, ← hmembers, hnames]
  exact ((ascending_perm _ _).map Prod.fst).mem_iff

theorem WellFormed.reread {test : Value → Bool} {types : List String} {document other : Document}
    (hwell : document.WellFormed types) (hsound : document.Sound test) (h : Reread document other) :
    other.WellFormed types where
  type := (h.type_eq hsound).trans hwell.type
  ascending := hwell.ascending
  null := hwell.null
  properties := fun hsome => hwell.properties (mt h.properties_eq_nil_iff.mpr hsome)
  items := fun hsome => hwell.items (mt h.items_eq_none_iff.mpr hsome)
  format := by
    rw [h.format]
    exact fun hsome => hwell.format (mt Option.map_eq_none_iff.mpr hsome)
  constant := by
    rw [h.constant]
    intro v hv
    obtain ⟨w, hw, rfl⟩ := Option.map_eq_some_iff.mp hv
    rw [Value.primitiveType_plain]
    exact hwell.constant w hw
  required := by
    obtain ⟨names, hnames, hascending, hlisted⟩ := hwell.required
    refine ⟨names, ?_, hascending, fun name hname => h.mem_propertyNames_iff.mpr (hlisted hname)⟩
    rw [h.required, hnames, List.map_map]
    rfl

/-- **The document that is read from the text of a placed one is placed.** -/
theorem Placed.reread {test : Value → Bool} {document other : Document} (hplaced : document.Placed)
    (hsound : document.Sound test) (h : Reread document other) : other.Placed where
  wellFormed := by
    obtain ⟨types, hwell⟩ := hplaced.wellFormed
    exact ⟨types, hwell.reread hsound h⟩
  properties := by
    intro child hchild
    have hmem : (child.1, child.2.toValue) ∈ toMembers other.properties := by
      rw [toMembers_eq_map]
      exact List.mem_map.mpr ⟨child, hchild, rfl⟩
    rw [h.properties] at hmem
    obtain ⟨member, hmember, heq⟩ := List.mem_map.mp hmem
    rw [mem_ascending, toMembers_eq_map] at hmember
    obtain ⟨written, hwritten, rfl⟩ := List.mem_map.mp hmember
    obtain ⟨htype, hversion⟩ := hplaced.properties written hwritten
    obtain ⟨htype', hversion'⟩ := eq_of_toValue_eq (Prod.mk.inj heq).2.symm
    rw [htype', hversion', hversion]
    exact ⟨mt Option.map_eq_none_iff.mp htype, rfl⟩
  items := by
    intro items hitems
    have hmap := h.items
    rw [hitems] at hmap
    obtain ⟨written, hwritten, heq⟩ := Option.map_eq_some_iff.mp hmap.symm
    rw [(eq_of_toValue_eq heq.symm).2, hplaced.items written hwritten]
    rfl

/-! ## From documents that are read to nodes -/

/-- **The tree that is loaded from placed documents is supported.** -/
theorem LoadsAs.everywhere_supported {document : Document} {node : Node}
    (hplaced : document.Everywhere Placed) (hcoherent : node.Everywhere Node.Coherent)
    (h : document.LoadsAs node) : node.Everywhere Node.Supported := by
  induction hplaced generalizing node with
  | intro here items properties ihItems ihProperties =>
    rename_i document
    refine .intro ⟨hcoherent.here, ?_, ?_⟩ ?_ ?_
    · obtain ⟨types, hwell⟩ := here.wellFormed
      intro type v hcandidate
      rw [h.constant_eq] at hcandidate
      split at hcandidate
      · rename_i w hw
        obtain ⟨rfl, rfl⟩ := Constant.candidate.inj hcandidate
        rw [h.typeNames_eq, List.mem_eraseDups, hwell.loadedTypes_eq]
        exact hwell.constant w (Option.filter_eq_some_iff.mp hw).1
      · exact nomatch hcandidate
    · intro child hchild
      refine ⟨(hcoherent.properties child hchild).here, fun hnone => ?_⟩
      obtain ⟨field, hfield, -, hloads⟩ := exists_of_mem_right h.properties hchild
      obtain ⟨types, hwell⟩ := (properties field hfield).here.wellFormed
      -- without a counted type, the field would have none
      have hnames := hloads.typeNames_eq
      rw [hnone, hwell.loadedTypes_eq] at hnames
      have htypes : types = [] := List.eq_nil_iff_forall_not_mem.mpr fun name hname => by
        rw [← List.mem_eraseDups, ← hnames] at hname
        exact absurd hname List.not_mem_nil
      rw [htypes] at hwell
      exact (here.properties field hfield).1 hwell.type
    · intro item hitem
      have hrel := h.items
      rw [hitem] at hrel
      cases hitems : document.items with
      | none =>
        rw [hitems] at hrel
        exact nomatch hrel
      | some below =>
        rw [hitems] at hrel
        exact ihItems below hitems (hcoherent.item item hitem) (Option.rel_some_some.mp hrel)
    · intro child hchild
      obtain ⟨field, hfield, -, hloads⟩ := exists_of_mem_right h.properties hchild
      exact ihProperties field hfield (hcoherent.properties child hchild) hloads

end Document

end SampleSchema
