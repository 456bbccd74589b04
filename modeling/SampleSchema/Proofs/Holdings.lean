import SampleSchema.Proofs.Ingestion
import SampleSchema.Proofs.Outlines
import SampleSchema.Proofs.Position
import SampleSchema.Proofs.Respelling
/-!
# What a session holds

Values stay in a session for good: as constants, examples and names of formats in its tree, and in
the keywords of a loaded document. This module follows them to the document that is read. If they
pass a test at every depth, then so does the value of the document.

* `Node.Sound` and `Document.Sound` are the invariant of one node and of one document, `Everywhere`
  that of all nodes and documents below.
* `Node.everywhere_observeAll` and `Document.everywhere_assemble` carry it from samples to nodes, and
  from nodes to documents.
* `Document.everywhere_toValue` reads it off the value of a document.
-/

namespace SampleSchema

/-- A test that says nothing against strings, lists, truth values and null, and of an object no more
than that its names are distinct. A document has no other parts of its own, and what is read from a
text has numbers besides. -/
structure Value.Regular (test : Value → Bool) : Prop where
  null : test .null = true
  bool : ∀ b, test (.bool b) = true
  str : ∀ s, test (.str s) = true
  list : ∀ items, test (.list items) = true
  object : ∀ members, test (.object members) = true ↔ (Table.names members).Nodup

/-- Whether the members of an object have distinct names, whatever is in them. -/
def Value.hasDistinctMembers (v : Value) : Bool :=
  decide (Table.names (v.members?.getD [])).Nodup

theorem Value.regular_hasDistinctMembers : Value.Regular Value.hasDistinctMembers where
  null := rfl
  bool _ := rfl
  str _ := rfl
  list _ := rfl
  object _ := decide_eq_true_iff

/-- A type keyword is a name or a list of names. -/
def Value.IsTypes (v : Value) : Prop :=
  (∃ name, v = .str name) ∨ ∃ names : List String, v = .list (names.map .str)

theorem Value.nonNull?_eq_some_iff {v w : Value} : v.nonNull? = some w ↔ v = w ∧ w ≠ .null := by
  cases v with
  | null => exact ⟨nofun, fun h => absurd h.1.symm h.2⟩
  | _ =>
    simp only [nonNull?, Option.some.injEq]
    constructor
    · rintro rfl
      exact ⟨rfl, nofun⟩
    · exact And.left

theorem Value.truthy?_eq_some_iff {v w : Value} :
    v.truthy? = some w ↔ v = w ∧ w.truthy = true := by
  unfold truthy?
  split
  · rename_i htruthy
    rw [Option.some.injEq]
    constructor
    · rintro rfl
      exact ⟨rfl, htruthy⟩
    · exact And.left
  · rename_i hfalsy
    simp only [reduceCtorEq, false_iff, not_and]
    rintro rfl
    exact hfalsy

/-! ## Sound nodes and documents -/

section Sound

variable (test : Value → Bool)

/-- The values of a node pass the test. Its constant and its example are not null. -/
structure Node.Sound (node : Node) : Prop where
  formats : ∀ formats ∈ node.formats, ∀ format ∈ formats, format.name.everywhere test = true
  constant : ∀ type v, node.constant = .candidate type v → v ≠ .null ∧ v.everywhere test = true
  exemplar : ∀ v ∈ node.exemplar, v ≠ .null ∧ v.everywhere test = true
  names : (Table.names node.properties).Nodup

/-- The values of a document pass the test, and each of them says something. -/
structure Document.Sound (document : Document) : Prop where
  version : ∀ v ∈ document.version, v.truthy = true ∧ v.everywhere test = true
  type : ∀ v ∈ document.type, v.IsTypes
  names : (Table.names document.properties).Nodup
  required : ∀ v ∈ document.required, v.everywhere test = true
  format : ∀ v ∈ document.format, v.truthy = true ∧ v.everywhere test = true
  constant : ∀ v ∈ document.constant, v ≠ .null ∧ v.everywhere test = true
  exemplar : ∀ v ∈ document.exemplar, v ≠ .null ∧ v.everywhere test = true
  additionalProperties : ∀ v ∈ document.additionalProperties,
    v ≠ .null ∧ v.everywhere test = true

end Sound

/-- A node and all nodes below it are as `P` says. -/
inductive Node.Everywhere (P : Node → Prop) : Node → Prop where
  | intro {node : Node} (here : P node) (item : ∀ item ∈ node.item, Everywhere P item)
      (properties : ∀ child ∈ node.properties, Everywhere P child.2) : Everywhere P node

/-- A document and all documents in it are as `P` says. -/
inductive Document.Everywhere (P : Document → Prop) : Document → Prop where
  | intro {document : Document} (here : P document)
      (items : ∀ items ∈ document.items, Everywhere P items)
      (properties : ∀ child ∈ document.properties, Everywhere P child.2) : Everywhere P document

variable {test : Value → Bool}

/-! ## From samples to nodes -/

namespace Node

theorem Everywhere.here {P : Node → Prop} {node : Node} (h : node.Everywhere P) : P node := by
  cases h with
  | intro here item properties => exact here

theorem Everywhere.item {P : Node → Prop} {node : Node} (h : node.Everywhere P) :
    ∀ item ∈ node.item, item.Everywhere P := by
  cases h with
  | intro here item properties => exact item

theorem Everywhere.properties {P : Node → Prop} {node : Node} (h : node.Everywhere P) :
    ∀ child ∈ node.properties, child.2.Everywhere P := by
  cases h with
  | intro here item properties => exact properties

theorem everywhere_of_fresh {P : Node → Prop} (hfresh : P {}) : Everywhere P {} :=
  .intro hfresh nofun nofun

/-- What a fresh node has, and a batch of values keeps at the node that observes it, a batch keeps
at all nodes. -/
theorem Everywhere.observeAll {P : Node → Prop} {observer : Observer} (hfresh : P {})
    (hnames : ∀ node, P node → (Table.names node.properties).Nodup)
    (hkeep : ∀ vs : Batch, (∀ v ∈ vs, v.everywhere test = true) → ∀ node, P node →
      P (node.observeAll observer vs))
    (vs : Batch) (hvs : ∀ v ∈ vs, v.everywhere test = true) {node : Node}
    (hnode : node.Everywhere P) : (node.observeAll observer vs).Everywhere P := by
  induction vs using Batch.induction generalizing node with
  | step vs ihElements ihNamed =>
    have hhere : P (node.observeAll observer vs) := hkeep vs hvs node hnode.here
    refine .intro hhere ?_ ?_
    · intro item hitem
      rw [item_observeAll] at hitem
      split at hitem
      · rename_i harray
        obtain rfl := Option.some.inj hitem
        refine ihElements harray (Batch.everywhere_elements hvs) ?_
        cases hbefore : node.item with
        | none => exact everywhere_of_fresh hfresh
        | some before => exact hnode.item before hbefore
      · exact hnode.item item hitem
    · intro child hchild
      -- the child is an old one, or what an old or a fresh one becomes
      have hget := Table.get?_eq_some_of_mem (hnames _ hhere) hchild
      rw [get?_properties_observeAll] at hget
      have hold : ∀ old, Table.get? child.1 node.properties = some old → old.Everywhere P :=
        fun old hold => hnode.properties (child.1, old) (Table.mem_of_get?_eq_some hold)
      split at hget
      · exact hold child.2 hget
      · rename_i hsome
        have hmem : child.1 ∈ vs.fieldNames :=
          Decidable.byContradiction fun hout => hsome (Table.valuesOf_eq_nil_iff.mpr hout)
        rw [← Option.some.inj hget]
        refine ihNamed child.1 hmem (Batch.everywhere_named child.1 hvs) ?_
        cases hbefore : Table.get? child.1 node.properties with
        | none => exact everywhere_of_fresh hfresh
        | some before => exact hold before hbefore

/-- Prescribed types change the fields of the root, and no more of them than their type. -/
theorem Everywhere.prescribe {P : Node → Prop} {predefined : List (String × String)} {node : Node}
    (hnode : node.Everywhere P) (hroot : P (Session.prescribe predefined node))
    (hoverride : ∀ child override, P child → P { child with override := override }) :
    (Session.prescribe predefined node).Everywhere P := by
  refine .intro hroot hnode.item ?_
  rw [Session.properties_prescribe]
  intro child hchild
  obtain ⟨entry, hentry, rfl⟩ := List.mem_map.mp hchild
  have hbefore : entry.2.Everywhere P := hnode.properties entry hentry
  exact .intro (hoverride entry.2 _ hbefore.here) hbefore.item hbefore.properties

theorem sound_fresh : Sound test {} :=
  ⟨nofun, nofun, nofun, .nil⟩

/-- A candidate was there before, or it is one of the values. -/
theorem constant_of_foldl_track {vs : Batch} {constant : Constant} {type : PrimitiveType}
    {v : Value} (h : vs.foldl Constant.track constant = .candidate type v) :
    constant = .candidate type v ∨ v ∈ vs ∧ v ≠ .null := by
  induction vs generalizing constant with
  | nil => exact .inl h
  | cons w rest ih =>
    rcases ih h with hstep | ⟨hmem, hne⟩
    · unfold Constant.track at hstep
      split at hstep
      · rename_i hscalar
        split at hstep
        · -- the first scalar becomes the candidate
          obtain ⟨-, rfl⟩ := Constant.candidate.inj hstep
          refine .inr ⟨List.mem_cons_self, ?_⟩
          rintro rfl
          exact nomatch hscalar
        · split at hstep
          · exact .inl hstep
          · exact nomatch hstep
        · exact nomatch hstep
      · exact .inl hstep
    · exact .inr ⟨List.mem_cons_of_mem w hmem, hne⟩

variable {observer : Observer}
  (hdetectors : ∀ format ∈ observer.detectors, format.name.everywhere test = true)
include hdetectors

theorem sound_observeAll {vs : Batch} (hvs : ∀ v ∈ vs, v.everywhere test = true) {node : Node}
    (hnode : node.Sound test) : (node.observeAll observer vs).Sound test where
  formats := by
    rw [formats_observeAll]
    split
    · exact hnode.formats
    · rintro _ ⟨⟩ format hformat
      have hmem := List.mem_of_mem_filter hformat
      cases hbefore : node.formats with
      | none =>
        rw [hbefore] at hmem
        exact hdetectors format hmem
      | some formats =>
        rw [hbefore] at hmem
        exact hnode.formats formats hbefore format hmem
  constant := by
    intro type v hconstant
    rw [constant_observeAll] at hconstant
    rcases constant_of_foldl_track hconstant with hbefore | ⟨hmem, hne⟩
    · exact hnode.constant type v hbefore
    · exact ⟨hne, hvs v hmem⟩
  exemplar := by
    rw [exemplar_observeAll]
    split
    · intro v hv
      obtain ⟨w, hw, hnonNull⟩ := Option.bind_eq_some_iff.mp hv
      obtain ⟨rfl, hne⟩ := Value.nonNull?_eq_some_iff.mp hnonNull
      exact ⟨hne, hvs w (List.mem_of_mem_head? hw)⟩
    · exact hnode.exemplar
  names := by
    rw [properties_observeAll]
    exact Table.nodup_names_gather _ _ _ hnode.names

/-- What a node holds after some values is what it held before, and the values. -/
theorem everywhere_observeAll (vs : Batch) (hvs : ∀ v ∈ vs, v.everywhere test = true) {node : Node}
    (hnode : node.Everywhere (Sound test)) :
    (node.observeAll observer vs).Everywhere (Sound test) :=
  hnode.observeAll sound_fresh (fun _ hsound => hsound.names)
    (fun _ hvs _ hsound => sound_observeAll hdetectors hvs hsound) vs hvs

end Node

/-- Types are prescribed without a look at what is held. -/
theorem Session.everywhere_prescribe (predefined : List (String × String)) {node : Node}
    (hnode : node.Everywhere (Node.Sound test)) :
    (prescribe predefined node).Everywhere (Node.Sound test) := by
  refine hnode.prescribe ?_ fun child override hsound =>
    ⟨hsound.formats, hsound.constant, hsound.exemplar, hsound.names⟩
  refine ⟨hnode.here.formats, hnode.here.constant, hnode.here.exemplar, ?_⟩
  rw [properties_prescribe, Table.names, List.map_map]
  exact hnode.here.names

/-! ## From nodes to documents -/

namespace Document

theorem Everywhere.here {P : Document → Prop} {document : Document} (h : document.Everywhere P) :
    P document := by
  cases h with
  | intro here items properties => exact here

theorem Everywhere.items {P : Document → Prop} {document : Document} (h : document.Everywhere P) :
    ∀ items ∈ document.items, items.Everywhere P := by
  cases h with
  | intro here items properties => exact items

theorem Everywhere.properties {P : Document → Prop} {document : Document}
    (h : document.Everywhere P) : ∀ child ∈ document.properties, child.2.Everywhere P := by
  cases h with
  | intro here items properties => exact properties

theorem isTypes_typeOf (node : Node) : ∀ v ∈ typeOf node, v.IsTypes := by
  intro v hv
  unfold typeOf at hv
  split at hv
  · split at hv
    · exact nomatch hv
    · obtain rfl := Option.some.inj hv
      exact .inl ⟨_, rfl⟩
    · obtain rfl := Option.some.inj hv
      exact .inr ⟨_, rfl⟩
  · obtain ⟨name, -, rfl⟩ := Option.map_eq_some_iff.mp hv
    exact .inl ⟨name, rfl⟩

section Assembly

variable (hregular : Value.Regular test) {version : Option Value}
  (hversion : ∀ v ∈ version, v.truthy = true ∧ v.everywhere test = true)
include hregular hversion

theorem sound_ofObservations {node : Node} (hnode : node.Sound test) {items : Option Document}
    {properties : List (String × Document)} (hnames : (Table.names properties).Nodup) :
    (ofObservations version node items properties).Sound test where
  version := hversion
  type := isTypes_typeOf node
  names := by
    unfold ofObservations
    dsimp only
    split
    · exact hnames
    · exact .nil
  required := by
    unfold ofObservations
    dsimp only
    split
    · intro v hv
      obtain ⟨name, -, rfl⟩ := List.mem_map.mp hv
      exact hregular.str name
    · exact nofun
  format := by
    unfold ofObservations
    dsimp only
    split
    · intro v hv
      obtain ⟨name, hname, htruthy⟩ := Option.bind_eq_some_iff.mp hv
      obtain ⟨rfl, htruthy⟩ := Value.truthy?_eq_some_iff.mp htruthy
      obtain ⟨formats, hformats, hhead⟩ := Option.bind_eq_some_iff.mp hname
      obtain ⟨format, hformat, rfl⟩ := Option.map_eq_some_iff.mp hhead
      exact ⟨htruthy, hnode.formats formats hformats format (List.mem_of_mem_head? hformat)⟩
    · exact nofun
  constant := by
    intro v hv
    have hconstant : node.constant? = some v := hv
    unfold Node.constant? at hconstant
    split at hconstant
    · rename_i type value hcandidate
      obtain rfl := Option.some.inj hconstant
      exact hnode.constant type value hcandidate
    · exact nomatch hconstant
  exemplar := hnode.exemplar
  additionalProperties := nofun

theorem sound_ofOverride (override : String) (items : Option Document)
    {properties : List (String × Document)} (hnames : (Table.names properties).Nodup) :
    (ofOverride version override items properties).Sound test := by
  have htype : ∀ name, ∀ v ∈ some (Value.str name), v.IsTypes := by
    rintro name _ ⟨⟩
    exact .inl ⟨name, rfl⟩
  unfold ofOverride
  split
  · refine ⟨hversion, htype _, .nil, nofun, ?_, nofun, nofun, nofun⟩
    rintro _ ⟨⟩
    exact ⟨by decide, hregular.str _⟩
  · split
    · exact ⟨hversion, htype _, .nil, nofun, nofun, nofun, nofun, nofun⟩
    · split
      · exact ⟨hversion, htype _, hnames, nofun, nofun, nofun, nofun, nofun⟩
      · exact ⟨hversion, htype _, .nil, nofun, nofun, nofun, nofun, nofun⟩

omit hregular hversion in
theorem parts_ofOverride (version : Option Value) (override : String) (items : Option Document)
    (properties : List (String × Document)) :
    (∀ part ∈ (ofOverride version override items properties).items, part ∈ items) ∧
      (ofOverride version override items properties).properties ⊆ properties := by
  unfold ofOverride
  split
  · exact ⟨nofun, List.nil_subset _⟩
  · split
    · exact ⟨fun _ => id, List.nil_subset _⟩
    · split
      · exact ⟨nofun, List.Subset.refl _⟩
      · exact ⟨nofun, List.nil_subset _⟩

omit hregular hversion in
theorem parts_ofObservations (version : Option Value) (node : Node) (items : Option Document)
    (properties : List (String × Document)) :
    (∀ part ∈ (ofObservations version node items properties).items, part ∈ items) ∧
      (ofObservations version node items properties).properties ⊆ properties := by
  unfold ofObservations
  dsimp only
  constructor
  · split
    · exact fun _ => id
    · exact nofun
  · split
    · exact List.Subset.refl _
    · exact List.nil_subset _

omit hregular hversion in
/-- What the document of every node has for itself, the document of a tree has throughout. -/
theorem everywhere_assemble_of {P : Node → Prop} {Q : Document → Prop}
    (hbelow : ∀ node, P node → Q (assemble none node)) {version : Option Value} {node : Node}
    (hnode : node.Everywhere P) (hroot : Q (assemble version node)) :
    (assemble version node).Everywhere Q := by
  induction hnode generalizing version with
  | intro here item properties ihItem ihProperties =>
    rename_i node
    have hitems : ∀ part ∈ node.item.map (assemble none), part.Everywhere Q := by
      intro part hpart
      obtain ⟨child, hchild, rfl⟩ := Option.map_eq_some_iff.mp hpart
      exact ihItem child hchild (hbelow child (item child hchild).here)
    have hproperties : ∀ part ∈ node.properties.map fun child =>
        (child.1, assemble none child.2), part.2.Everywhere Q := by
      intro part hpart
      obtain ⟨child, hchild, rfl⟩ := List.mem_map.mp hpart
      exact ihProperties child hchild (hbelow child.2 (properties child hchild).here)
    rw [assemble_eq] at hroot ⊢
    split at hroot
    · obtain ⟨hitem, hproperty⟩ := parts_ofOverride version _ _ _
      exact .intro hroot (fun part hpart => hitems part (hitem part hpart))
        (fun part hpart => hproperties part (hproperty hpart))
    · obtain ⟨hitem, hproperty⟩ := parts_ofObservations version node _ _
      exact .intro hroot (fun part hpart => hitems part (hitem part hpart))
        (fun part hpart => hproperties part (hproperty hpart))

theorem sound_assemble {node : Node} (hnode : node.Sound test) :
    (assemble version node).Sound test := by
  have hnames : (Table.names (node.properties.map fun child =>
      (child.1, assemble none child.2))).Nodup := by
    rw [Table.names_map]
    exact hnode.names
  rw [assemble_eq]
  split
  · exact sound_ofOverride hregular hversion _ _ hnames
  · exact sound_ofObservations hregular hversion hnode hnames

/-- The document of a node holds what the node holds. -/
theorem everywhere_assemble {node : Node} (hnode : node.Everywhere (Node.Sound test)) :
    (assemble version node).Everywhere (Sound test) := by
  have hnone : ∀ v ∈ (none : Option Value), v.truthy = true ∧ v.everywhere test = true := nofun
  exact everywhere_assemble_of (fun _ hbelow => sound_assemble hregular hnone hbelow) hnode
    (sound_assemble hregular hversion hnode.here)

end Assembly

/-! ## The value of a document -/

/-- The members of the value of a document. -/
def keywords (document : Document) : List (String × Value) :=
  keyword "$schema" document.version ++
  keyword "type" document.type ++
  keywordUnlessEmpty "properties" document.properties
    (.object (ascending (·.1) (toMembers document.properties))) ++
  keyword "items" (document.items.map toValue) ++
  keywordUnlessEmpty "required" document.required (.list document.required) ++
  keyword "format" document.format ++
  keyword "const" document.constant ++
  keyword "example" document.exemplar ++
  keyword "additionalProperties" document.additionalProperties

theorem toValue_eq (document : Document) : document.toValue = .object document.keywords := by
  obtain ⟨version, type, properties, items, required, format, constant, exemplar, additional⟩ :=
    document
  cases items <;> rfl

theorem names_keyword_sublist (name : String) (value : Option Value) :
    (Table.names (keyword name value)).Sublist [name] := by
  cases value with
  | none => exact List.nil_sublist _
  | some v => exact List.Sublist.refl _

theorem names_keywordUnlessEmpty_sublist {α : Type} (name : String) (things : List α)
    (value : Value) : (Table.names (keywordUnlessEmpty name things value)).Sublist [name] := by
  unfold keywordUnlessEmpty
  split
  · exact List.nil_sublist _
  · exact List.Sublist.refl _

/-- The keywords of a document, in the order in which they are written. -/
def keywordNames : List String :=
  ["$schema", "type", "properties", "items", "required", "format", "const", "example",
    "additionalProperties"]

theorem names_keywords_sublist (document : Document) :
    (Table.names document.keywords).Sublist keywordNames := by
  have hnames : keywordNames = ["$schema"] ++ ["type"] ++ ["properties"] ++ ["items"] ++
      ["required"] ++ ["format"] ++ ["const"] ++ ["example"] ++ ["additionalProperties"] := rfl
  rw [hnames]
  simp only [keywords, Table.names, List.map_append]
  iterate 8 refine List.Sublist.append ?_ ?_
  · exact names_keyword_sublist _ _
  · exact names_keyword_sublist _ _
  · exact names_keywordUnlessEmpty_sublist _ _ _
  · exact names_keyword_sublist _ _
  · exact names_keywordUnlessEmpty_sublist _ _ _
  · exact names_keyword_sublist _ _
  · exact names_keyword_sublist _ _
  · exact names_keyword_sublist _ _
  · exact names_keyword_sublist _ _

/-- Every keyword of a document is written at most once. -/
theorem nodup_names_keywords (document : Document) : (Table.names document.keywords).Nodup :=
  List.Nodup.sublist (names_keywords_sublist document) (by decide)

theorem everywhere_of_isTypes (hregular : Value.Regular test) {v : Value} (hv : v.IsTypes) :
    v.everywhere test = true := by
  rcases hv with ⟨name, rfl⟩ | ⟨names, rfl⟩
  · exact hregular.str name
  · rw [Value.everywhere_list_iff]
    refine ⟨hregular.list _, fun item hitem => ?_⟩
    obtain ⟨name, -, rfl⟩ := List.mem_map.mp hitem
    exact hregular.str name

theorem mem_keyword {name : String} {value : Option Value} {member : String × Value}
    (h : member ∈ keyword name value) : member.2 ∈ value := by
  cases value with
  | none => exact absurd h List.not_mem_nil
  | some v =>
    obtain rfl := List.mem_singleton.mp h
    rfl

theorem mem_keywordUnlessEmpty {α : Type} {name : String} {things : List α} {value : Value}
    {member : String × Value} (h : member ∈ keywordUnlessEmpty name things value) :
    member.2 = value := by
  unfold keywordUnlessEmpty at h
  split at h
  · exact absurd h List.not_mem_nil
  · obtain rfl := List.mem_singleton.mp h
    rfl

/-- The value of a document holds what the document holds. -/
theorem everywhere_toValue (hregular : Value.Regular test) {document : Document}
    (hdocument : document.Everywhere (Sound test)) : document.toValue.everywhere test = true := by
  induction hdocument with
  | intro here items properties ihItems ihProperties =>
    rename_i document
    rw [toValue_eq, Value.everywhere_object_iff]
    constructor
    · rw [hregular.object]
      exact nodup_names_keywords document
    · simp only [keywords, List.forall_mem_append]
      refine ⟨⟨⟨⟨⟨⟨⟨⟨?_, ?_⟩, ?_⟩, ?_⟩, ?_⟩, ?_⟩, ?_⟩, ?_⟩, ?_⟩
      · exact fun member hmember => (here.version _ (mem_keyword hmember)).2
      · exact fun member hmember =>
          everywhere_of_isTypes hregular (here.type _ (mem_keyword hmember))
      · intro member hmember
        rw [mem_keywordUnlessEmpty hmember, Value.everywhere_object_iff, hregular.object]
        have hperm := ascending_perm (·.1) (toMembers document.properties)
        constructor
        · rw [Table.names, (hperm.map _).nodup_iff, toMembers_eq_map, List.map_map]
          exact here.names
        · intro field hfield
          rw [hperm.mem_iff, toMembers_eq_map] at hfield
          obtain ⟨child, hchild, rfl⟩ := List.mem_map.mp hfield
          exact ihProperties child hchild
      · intro member hmember
        obtain ⟨child, hchild, hvalue⟩ := Option.map_eq_some_iff.mp (mem_keyword hmember)
        rw [← hvalue]
        exact ihItems child hchild
      · intro member hmember
        rw [mem_keywordUnlessEmpty hmember, Value.everywhere_list_iff]
        exact ⟨hregular.list _, here.required⟩
      · exact fun member hmember => (here.format _ (mem_keyword hmember)).2
      · exact fun member hmember => (here.constant _ (mem_keyword hmember)).2
      · exact fun member hmember => (here.exemplar _ (mem_keyword hmember)).2
      · exact fun member hmember => (here.additionalProperties _ (mem_keyword hmember)).2

end Document

end SampleSchema
