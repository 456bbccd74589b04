import SampleSchema.Proofs.LoadedNode
/-!
# Which fields are required after a load

A document records which fields some sample lacked, but the counts behind it are gone. A loaded
root counts as one sample, and so does every field, because none is given less than one. So a
field that the document does not require starts level with its parent, like one that it requires,
and is required later if all later values have it.

* `Node.mem_required_observeAll_iff`: a child that is level with its parent is required after some
  values exactly if each of them is an object with that member.
* `Session.mem_required_after_load_iff`: the law at every position of a loaded document, for all
  fields that the document lists.
* `Session.required_optionalDocument`: so a load can promote a field that was optional.
* `Session.required_after_load_of_decisive`: samples that decide every listed field as the document
  did bring back its required names, and no field that is new comes in between.
-/

namespace SampleSchema

namespace Node

theorem mem_required_iff_samples {node : Node} (hnames : (Table.names node.properties).Nodup)
    {name : String} :
    name ∈ node.required ↔
      ∃ child, Table.get? name node.properties = some child ∧ child.samples = node.samples := by
  rw [required, mem_ascending, Table.names, List.mem_map]
  constructor
  · rintro ⟨child, hchild, rfl⟩
    obtain ⟨hmem, hsamples⟩ := List.mem_filter.mp hchild
    exact ⟨child.2, Table.get?_eq_some_of_mem hnames hmem, beq_iff_eq.mp hsamples⟩
  · rintro ⟨child, hget, hsamples⟩
    have hmem : (name, child) ∈ node.properties := Table.mem_of_get?_eq_some hget
    exact ⟨(name, child), List.mem_filter.mpr ⟨hmem, beq_iff_eq.mpr hsamples⟩, rfl⟩

/-- A child that counts as many values as its parent goes on doing so exactly as long as every value
bears its name. -/
theorem mem_required_observeAll_iff {observer : Observer} {node child : Node}
    (hnames : (Table.names node.properties).Nodup) {name : String}
    (hchild : Table.get? name node.properties = some child)
    (hlevel : child.samples = node.samples) {vs : Batch}
    (hd : ∀ v ∈ vs, v.hasDistinctNames = true) :
    name ∈ (node.observeAll observer vs).required ↔ ∀ v ∈ vs, v.Bears name := by
  have hafter : (Table.names (node.observeAll observer vs).properties).Nodup := by
    rw [properties_observeAll]
    exact Table.nodup_names_gather _ _ _ hnames
  have hget : Table.get? name (node.observeAll observer vs).properties =
      some (child.observeAll observer (vs.named name)) :=
    get?_properties_observeAll_of_eq_some vs hchild
  rw [mem_required_iff_samples hafter, hget, ← Batch.length_named_eq_length_iff hd]
  constructor
  · rintro ⟨_, ⟨⟩, hsamples⟩
    rw [samples_observeAll, samples_observeAll] at hsamples
    omega
  · intro hlength
    refine ⟨_, rfl, ?_⟩
    rw [samples_observeAll, samples_observeAll]
    omega

/-- A child that is not there yet cannot catch up: its parent counted something before. -/
theorem not_mem_required_observeAll {observer : Observer} {node : Node}
    (hnames : (Table.names node.properties).Nodup) (hpos : 0 < node.samples) {name : String}
    (hnew : name ∉ Table.names node.properties) {vs : Batch}
    (hd : ∀ v ∈ vs, v.hasDistinctNames = true) :
    name ∉ (node.observeAll observer vs).required := by
  have hafter : (Table.names (node.observeAll observer vs).properties).Nodup := by
    rw [properties_observeAll]
    exact Table.nodup_names_gather _ _ _ hnames
  rw [mem_required_iff_samples hafter, get?_properties_observeAll,
    Table.get?_eq_none_iff.mpr hnew]
  rintro ⟨child, hchild, hsamples⟩
  split at hchild
  · exact nomatch hchild
  · have hcount : child.samples = (vs.named name).length := by
      rw [← Option.some.inj hchild, samples_observeAll]
      exact Nat.zero_add _
    have hle := Batch.length_named_le_length hd name
    rw [samples_observeAll] at hsamples
    omega

/-- Values of the only type that was seen leave it the only type. -/
theorem types_observeAll_of_uniform (type : PrimitiveType) {observer : Observer} {node : Node}
    {count : Nat} (htypes : node.types = [(type.name, count)]) {vs : Batch}
    (hvs : ∀ v ∈ vs, v.primitiveType = type) :
    (node.observeAll observer vs).types = [(type.name, count + vs.length)] := by
  induction vs generalizing node count with
  | nil => exact htypes
  | cons v rest ih =>
    obtain ⟨hfirst, hrest⟩ := List.forall_mem_cons.mp hvs
    have hnext : (node.observe observer v).types = [(type.name, count + 1)] := by
      rw [types_observe, htypes, hfirst, Table.alter, if_pos rfl]
      rfl
    rw [observeAll_cons, ih hnext hrest, List.length_cons, Nat.add_assoc, Nat.add_comm 1]

end Node

/-- A position of objects stays one, as long as nothing else comes. -/
theorem Document.LoadsAs.primaryType?_observeAll {document : Document} {node : Node}
    (h : document.LoadsAs node) (htype : document.type = some (.str "object")) (observer : Observer)
    {vs : Batch} (hvs : ∀ v ∈ vs, v.primitiveType = .object) :
    (node.observeAll observer vs).primaryType? = some "object" := by
  rw [Node.primaryType?, Node.types_observeAll_of_uniform .object (h.types_of_str htype) hvs]
  rfl

/-- The fields that are required after a load are the listed ones that all later values bear. -/
theorem Document.LoadsAs.mem_required_observeAll_iff {document : Document} {node : Node}
    (h : document.LoadsAs node) (hcoherent : node.Coherent) {observer : Observer} {vs : Batch}
    (hd : ∀ v ∈ vs, v.hasDistinctNames = true) {name : String} :
    name ∈ (node.observeAll observer vs).required ↔
      name ∈ Table.names document.properties ∧ ∀ v ∈ vs, v.Bears name := by
  have hone : node.samples = 1 := h.samples_eq
  rw [← h.propertyNames_eq]
  by_cases hname : name ∈ Table.names node.properties
  · obtain ⟨child, hchild⟩ := Option.isSome_iff_exists.mp (Table.isSome_get?_iff.mpr hname)
    have hlevel : child.samples = node.samples := by
      have hbounds := hcoherent.properties _ (Table.mem_of_get?_eq_some hchild)
      dsimp only at hbounds
      omega
    rw [Node.mem_required_observeAll_iff hcoherent.propertyNames hchild hlevel hd]
    exact (and_iff_right hname).symm
  · have hpos : 0 < node.samples := by omega
    exact iff_of_false (Node.not_mem_required_observeAll hcoherent.propertyNames hpos hname hd)
      fun hboth => hname hboth.1

namespace Session

/-- **A listed field is required after a load exactly if all later values have it.** Take any calls
of which the last load and the samples behind it are left, and a position that both the loaded
document and the one that is read afterwards show. A field that the loaded document lists there,
required or not, is required afterwards exactly if the type of the position is not prescribed, the
field is still shown, and every value that reached the position since the load is an object with
that member, and not with null. -/
theorem mem_required_after_load_iff (options : Options) {calls : List Call}
    (hcalls : ∀ call ∈ calls, call.hasDistinctNames = true) {v : Value} {vs : Batch}
    (hrecent : Recent.ofHistory (changes { options } calls) = ⟨some v, vs⟩) (hvs : vs ≠ [])
    {loaded document : Document} (hloaded : Document.ofValue v = .ok loaded)
    (hdocument : (run { options } calls).1.document = .ok document)
    {position : Position} {before after : Document} (hbefore : loaded.sub? position = some before)
    (hafter : document.sub? position = some after) {name : String}
    (hname : name ∈ Table.names before.properties) :
    .str name ∈ after.required ↔
      options.typeAt? position = none ∧ name ∈ Table.names after.properties ∧
        ∀ w ∈ vs.reached position, w.Bears name := by
  have hsound : (Recent.ofHistory (changes { options } calls)).Sound Value.hasDistinctMembers :=
    sound_recent_run (fun call hcall _ _ hchange =>
      hasDistinctNames_of_change? (hcalls call hcall) hchange) _
  rw [hrecent] at hsound
  obtain ⟨hdistinct, -⟩ := hsound.loaded v rfl
  obtain ⟨root, node, version, hroot, hnode, hloads, rfl⟩ :=
    exists_loaded_of_sub? hrecent hvs hloaded hdocument hbefore hafter
  -- the loaded node is level with all of its children
  have hcoherent : node.Coherent :=
    (Node.coherent_ofOutline hdistinct (Nat.le_refl 1) hroot).of_sub? hnode
  have hin : name ∈ Table.names node.properties := by
    rw [hloads.propertyNames_eq]
    exact hname
  obtain ⟨child, hchild⟩ := Option.isSome_iff_exists.mp (Table.isSome_get?_iff.mpr hin)
  have hlevel : child.samples = node.samples := by
    have hbounds := hcoherent.properties _ (Table.mem_of_get?_eq_some hchild)
    have hone : node.samples = 1 := hloads.samples_eq
    dsimp only at hbounds
    omega
  have hreached : ∀ w ∈ vs.reached position, w.hasDistinctNames = true :=
    Batch.everywhere_reached position hsound.samples
  have hrequired : name ∈ (node.observeAll options.observer (vs.reached position)).required ↔
      ∀ w ∈ vs.reached position, w.Bears name :=
    Node.mem_required_observeAll_iff hcoherent.propertyNames hchild hlevel hreached
  have hoverride : (node.observeAll options.observer (vs.reached position)).override = none := by
    rw [Node.override_observeAll]
    exact hloads.override_eq
  cases htype : options.typeAt? position with
  | some type =>
    obtain ⟨hrequired, -⟩ := tells_assemble_prescribedAt htype version hoverride
    simp [hrequired]
  | none =>
    have hshows := shows_assemble_prescribedAt htype version hoverride
    rw [hshows.required, hshows.propertyNames]
    by_cases hobject : (node.observeAll options.observer (vs.reached position)).primaryType? =
        some "object"
    · have hstays : name ∈ Table.names
          (node.observeAll options.observer (vs.reached position)).properties := by
        rw [Node.properties_observeAll, Table.mem_names_gather]
        exact .inl hin
      rw [if_pos hobject, if_pos hobject, ← hrequired]
      simp [hstays]
    · rw [if_neg hobject, if_neg hobject]
      simp

/-- Options without any formats, prescribed types or cap. -/
def bareOptions : Options :=
  ⟨[], .unlimited, ⟨false, []⟩, none, ""⟩

/-- Array items with a required field and an optional one. -/
def itemsDocument : Value :=
  .object [("type", .str "object"),
    ("properties", .object [("rows", .object [("type", .str "array"),
      ("items", .object [("type", .str "object"),
        ("properties", .object [("a", .object [("type", .str "integer")]),
          ("b", .object [("type", .str "string")])]),
        ("required", .list [.str "b"])])])]),
    ("required", .list [.str "rows"])]

/-- Two samples with rows of the one optional field, and a read between them. -/
def itemsCalls : List Call :=
  [.load itemsDocument,
   .add (.object [("rows", .list [.object [("a", .int 1), ("b", .str "x")]])]),
   .readDocument,
   .add (.object [("rows", .list [.object [("a", .int 2)], .object [("a", .int 3)]])])]

theorem mem_required_after_load_itemsCalls :
    .str "a" ∈ [Value.str "a"] ↔
      bareOptions.typeAt? [some "rows", none] = none ∧ "a" ∈ ["a", "b"] ∧
        ∀ w ∈ [Value.object [("a", .int 1), ("b", .str "x")], .object [("a", .int 2)],
          .object [("a", .int 3)]], w.Bears "a" := by
  have hcalls : ∀ call ∈ itemsCalls, call.hasDistinctNames = true := by decide
  have hrecent : Recent.ofHistory (changes { options := bareOptions } itemsCalls) =
      ⟨some itemsDocument,
        [.object [("rows", .list [.object [("a", .int 1), ("b", .str "x")]])],
         .object [("rows", .list [.object [("a", .int 2)], .object [("a", .int 3)]])]]⟩ := rfl
  have hname : "a" ∈ Table.names [("a", ({ type := some (.str "integer") } : Document)),
      ("b", { type := some (.str "string") })] := by decide
  exact @mem_required_after_load_iff bareOptions itemsCalls hcalls itemsDocument _ hrecent nofun
    _ _ rfl rfl [some "rows", none] _ _ rfl rfl "a" hname

/-- A field that is not required, and a sample that has it. -/
def optionalDocument : Value :=
  .object [("type", .str "object"),
    ("properties", .object [("a", .object [("type", .str "integer")])])]

/-- A load promotes an optional field that the only sample after it has. -/
theorem required_optionalDocument :
    let calls : List Call := [.load optionalDocument, .add (.object [("a", .int 1)])]
    ∃ loaded document,
      Recent.ofHistory (changes { options := bareOptions } calls) =
        ⟨some optionalDocument, [.object [("a", .int 1)]]⟩ ∧
      Document.ofValue optionalDocument = .ok loaded ∧
      (run { options := bareOptions } calls).1.document = .ok document ∧
      "a" ∈ Table.names loaded.properties ∧ .str "a" ∉ loaded.required ∧
      .str "a" ∈ document.required := by
  intro calls
  exact ⟨_, _, rfl, rfl, rfl, List.mem_cons_self, List.not_mem_nil, List.mem_cons_self⟩

/-- **Decisive samples bring the required names back.** Take any calls of which the last load and
some objects behind it are left, and a loaded document whose required names are among the names of
its properties. If every object bears each of the required names, and each other listed name is
missing from one of them, then the document that is read requires exactly the names that the loaded
one requires, in ascending order, whatever else the objects bear. -/
theorem required_after_load_of_decisive (options : Options) {calls : List Call}
    (hcalls : ∀ call ∈ calls, call.hasDistinctNames = true) {v : Value} {vs : Batch}
    (hrecent : Recent.ofHistory (changes { options } calls) = ⟨some v, vs⟩) (hvs : vs ≠ [])
    (hobjects : ∀ w ∈ vs, w.primitiveType = .object) {loaded : Document}
    (hloaded : Document.ofValue v = .ok loaded)
    (hlisted : ∀ entry ∈ loaded.required,
      ∃ name ∈ Table.names loaded.properties, entry = .str name)
    (hborne : ∀ name, .str name ∈ loaded.required → ∀ w ∈ vs, w.Bears name)
    (hlacked : ∀ name ∈ Table.names loaded.properties, .str name ∉ loaded.required →
      ∃ w ∈ vs, ¬ w.Bears name) :
    ∃ (document : Document) (names : List String), (run { options } calls).1.document = .ok document ∧
      document.required = names.map .str ∧ names.Pairwise (· < ·) ∧
      ∀ name, name ∈ names ↔ .str name ∈ loaded.required := by
  have hsound : (Recent.ofHistory (changes { options } calls)).Sound Value.hasDistinctMembers :=
    sound_recent_run (fun call hcall _ _ hchange =>
      hasDistinctNames_of_change? (hcalls call hcall) hchange) _
  rw [hrecent] at hsound
  obtain ⟨hdistinct, ⟨root, other⟩, hload⟩ := hsound.loaded v rfl
  obtain ⟨hobject, hroot, hother⟩ := loadable_eq_ok_iff.mp hload
  have hloads : loaded.LoadsAs root := ⟨v, hroot, hloaded⟩
  have hcoherent : root.Coherent :=
    (Node.coherent_ofOutline hdistinct (Nat.le_refl 1) hroot).here
  have hdocument := document_of_recent hrecent hvs hroot
  have hoverride : (root.observeAll options.observer vs).override = none := by
    rw [Node.override_observeAll]
    exact hloads.override_eq
  have hshows := @shows_assemble_prescribedAt options [] rfl options.version _ hoverride
  -- nothing but objects was seen, in the loaded document and since, so what is required is shown
  have hprimary : (root.observeAll options.observer vs).primaryType? = some "object" :=
    hloads.primaryType?_observeAll (Document.type_of_object hloaded hobject) _ hobjects
  refine ⟨_, (root.observeAll options.observer vs).required, hdocument, ?_, ?_, fun name => ?_⟩
  · exact hshows.required.trans (if_pos hprimary)
  · refine Node.pairwise_lt_required_of_nodup ?_
    rw [Node.properties_observeAll]
    exact Table.nodup_names_gather _ _ _ hcoherent.propertyNames
  · rw [hloads.mem_required_observeAll_iff hcoherent hsound.samples]
    constructor
    · rintro ⟨hname, hall⟩
      by_contra hmissing
      obtain ⟨w, hw, hlacks⟩ := hlacked name hname hmissing
      exact hlacks (hall w hw)
    · intro hmem
      obtain ⟨listed, hname, hentry⟩ := hlisted _ hmem
      obtain rfl := Value.str.inj hentry
      exact ⟨hname, hborne _ hmem⟩

/-- A document with a required field and an optional one. -/
def recordDocument : Value :=
  .object [("type", .str "object"),
    ("properties", .object [("note", .object [("type", .str "string")]), ("id", .object [])]),
    ("required", .list [.str "id"])]

/-- Samples of which only one has the optional field, and which all have one that is new. -/
def recordSamples : Batch :=
  [.object [("id", .int 1), ("note", .str "x"), ("at", .int 5)],
   .object [("at", .int 6), ("id", .str "2"), ("note", .null)]]

theorem required_after_load_recordDocument :
    ∃ (document : Document) (names : List String),
      (run { options := bareOptions } (.load recordDocument :: recordSamples.map .add)).1.document =
        .ok document ∧
      document.required = names.map .str ∧ names.Pairwise (· < ·) ∧
      ∀ name, name ∈ names ↔ .str name ∈ [Value.str "id"] := by
  have hcalls : ∀ call ∈ Call.load recordDocument :: recordSamples.map .add,
      call.hasDistinctNames = true := by decide
  have hlisted : ∀ entry ∈ [Value.str "id"], ∃ name ∈ ["note", "id"], entry = .str name :=
    List.forall_mem_singleton.mpr ⟨"id", by decide, rfl⟩
  have hborne : ∀ name, .str name ∈ [Value.str "id"] → ∀ w ∈ recordSamples, w.Bears name := by
    intro name hname
    obtain rfl := Value.str.inj (List.mem_singleton.mp hname)
    exact List.forall_mem_cons.mpr ⟨⟨_, _, rfl, rfl, nofun⟩,
      List.forall_mem_singleton.mpr ⟨_, _, rfl, rfl, nofun⟩⟩
  have hlacked : ∀ name ∈ ["note", "id"], .str name ∉ [Value.str "id"] →
      ∃ w ∈ recordSamples, ¬ w.Bears name := by
    refine List.forall_mem_cons.mpr ⟨fun _ => ?_, List.forall_mem_singleton.mpr fun hout => ?_⟩
    · -- the note of the second sample is null
      refine ⟨_, List.mem_cons_of_mem _ List.mem_cons_self, ?_⟩
      rintro ⟨members, w, hmembers, hget, hne⟩
      obtain rfl := Value.object.inj hmembers
      exact hne (Option.some.inj hget).symm
    · exact absurd List.mem_cons_self hout
  exact required_after_load_of_decisive bareOptions hcalls rfl nofun (by decide) rfl hlisted hborne
    hlacked

end Session

end SampleSchema
