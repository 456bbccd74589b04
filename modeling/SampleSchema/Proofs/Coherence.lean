import SampleSchema.Proofs.Reload
import SampleSchema.Proofs.Required
/-!
# The counters of a tree

A node counts the values of its position, the texts among them, and the values of each type. It
comes about in two ways that have nothing in common: by observation, which advances the counters
one by one, and by loading, which invents them. This module says how the counters of one node and
of its children are related nevertheless, in every tree that a session can have.

* `Node.Coherent` is the relation at one node. The item node is left out of it: an array has any
  number of elements, so that the item node may count more values than its parent, or fewer.
* `Node.coherent_observe` is the step: one value keeps a node coherent.
* `Node.coherent_ofOutline`: the node of a loaded document is coherent from the start.
* `Session.coherent_run`: so is every node of the tree of a session, whatever calls came before.
-/

namespace SampleSchema

/-! ## One node -/

namespace Node

/-- The counters of a node agree with each other and with those of its children. Only a candidate
has a type and a value at all, and they belong together. -/
structure Coherent (node : Node) : Prop where
  types : ∀ count ∈ node.types, count.2 ≤ node.samples
  typeNames : (Table.names node.types).Nodup
  strings : node.strings ≤ (Table.get? "string" node.types).getD 0
  formats : node.formats = none ↔ node.strings = 0
  constant : ∀ type v, node.constant = .candidate type v →
    type = v.primitiveType ∧ type.isScalar = true
  propertyNames : (Table.names node.properties).Nodup
  properties : ∀ child ∈ node.properties, 1 ≤ child.2.samples ∧ child.2.samples ≤ node.samples

theorem coherent_fresh : Coherent {} where
  types := nofun
  typeNames := .nil
  strings := Nat.le_refl 0
  formats := by simp
  constant := nofun
  propertyNames := .nil
  properties := nofun

end Node

theorem PrimitiveType.eq_string_of_name {type : PrimitiveType} (h : type.name = "string") :
    type = .string := by
  cases type with
  | string => rfl
  | _ => exact absurd h (by decide)

theorem Constant.candidate_of_track {constant : Constant}
    (hbefore : ∀ type v, constant = .candidate type v → type = v.primitiveType ∧ type.isScalar = true)
    {w v : Value} {type : PrimitiveType} (h : constant.track w = .candidate type v) :
    type = v.primitiveType ∧ type.isScalar = true := by
  unfold track at h
  split at h
  · rename_i hscalar
    split at h
    · -- the first scalar becomes the candidate, under its own type
      obtain ⟨rfl, rfl⟩ := Constant.candidate.inj h
      exact ⟨rfl, hscalar⟩
    · split at h
      · exact hbefore type v h
      · exact nomatch h
    · exact nomatch h
  · exact hbefore type v h

namespace Node

variable {observer : Observer} {node : Node}

/-- What the children count stays between one and what their parent counts: the members of one
object have distinct names, so no child sees more than one of them. -/
theorem samples_of_mem_properties_observe (hnode : node.Coherent) {v : Value}
    (hd : v.hasDistinctNames = true) :
    ∀ child ∈ (node.observe observer v).properties,
      1 ≤ child.2.samples ∧ child.2.samples ≤ node.samples + 1 := by
  intro child hchild
  have hnames : (Table.names (node.observe observer v).properties).Nodup := by
    rw [properties_observe]
    exact Table.nodup_names_gather _ _ _ hnode.propertyNames
  have hget := Table.get?_eq_some_of_mem hnames hchild
  have hbatch : node.observe observer v = node.observeAll observer [v] := rfl
  rw [hbatch, get?_properties_observeAll] at hget
  have hone : (Batch.named child.1 [v]).length ≤ 1 :=
    Batch.length_named_le_length (List.forall_mem_singleton.mpr hd) child.1
  split at hget
  · have hbefore := hnode.properties child (Table.mem_of_get?_eq_some hget)
    omega
  · rename_i hsome
    have hpos : 0 < (Batch.named child.1 [v]).length := List.length_pos_iff.mpr hsome
    have hsamples : child.2.samples =
        ((Table.get? child.1 node.properties).getD {}).samples +
          (Batch.named child.1 [v]).length := by
      rw [← Option.some.inj hget, samples_observeAll]
    have hbefore : ((Table.get? child.1 node.properties).getD {}).samples ≤ node.samples := by
      cases hold : Table.get? child.1 node.properties with
      | none => simp
      | some old => exact (hnode.properties _ (Table.mem_of_get?_eq_some hold)).2
    omega

/-- **One value keeps a node coherent.** -/
theorem coherent_observe (hnode : node.Coherent) {v : Value} (hd : v.hasDistinctNames = true) :
    (node.observe observer v).Coherent where
  types := by
    rw [types_observe, samples_observe]
    refine Table.forall_mem_alter (P := fun count => count ≤ node.samples + 1) ?_
      fun count hcount => Nat.le_succ_of_le (hnode.types count hcount)
    cases hbefore : Table.get? v.primitiveType.name node.types with
    | none => simp
    | some count =>
      have hcount : count ≤ node.samples := hnode.types _ (Table.mem_of_get?_eq_some hbefore)
      simpa using hcount
  typeNames := by
    rw [types_observe]
    exact Table.nodup_names_alter hnode.typeNames
  strings := by
    have hstrings := hnode.strings
    rw [strings_observe, types_observe]
    by_cases htext : v.primitiveType = .string
    · have hname : v.primitiveType.name = "string" := congrArg PrimitiveType.name htext
      rw [if_pos htext, hname, Table.get?_alter_self, Option.getD_some]
      omega
    · have hname : "string" ≠ v.primitiveType.name := fun h =>
        htext (PrimitiveType.eq_string_of_name h.symm)
      rw [if_neg htext, Table.get?_alter_of_ne hname]
      exact hstrings
  formats := by
    rw [formats_observe, strings_observe]
    by_cases htext : v.primitiveType = .string
    · simp [htext]
    · simpa [htext] using hnode.formats
  constant := by
    rw [constant_observe]
    exact fun type w hcandidate => Constant.candidate_of_track hnode.constant hcandidate
  propertyNames := by
    rw [properties_observe]
    exact Table.nodup_names_gather _ _ _ hnode.propertyNames
  properties := by
    rw [samples_observe]
    exact samples_of_mem_properties_observe hnode hd

theorem coherent_observeAll (vs : Batch) (hd : ∀ v ∈ vs, v.hasDistinctNames = true)
    (hnode : node.Coherent) : (node.observeAll observer vs).Coherent := by
  induction vs generalizing node with
  | nil => exact hnode
  | cons v rest ih =>
    obtain ⟨hfirst, hrest⟩ := List.forall_mem_cons.mp hd
    exact ih hrest (coherent_observe hnode hfirst)

/-! ## The node of a loaded document -/

theorem samples_ofOutline {samples : Nat} {v : Value}
    (h : ofOutline samples (.ofValue v) = .ok node) : node.samples = samples := by
  cases v with
  | object members =>
    rw [ofOutline_object] at h
    obtain ⟨types, -, h⟩ := except_bind_eq_ok h
    obtain ⟨item, -, h⟩ := except_bind_eq_ok h
    obtain ⟨children, -, h⟩ := except_bind_eq_ok h
    rw [← Except.ok.inj h]
    rfl
  | _ => exact nomatch h

theorem propertySamples_bounds {samples : Nat} (hpos : 1 ≤ samples) (isRequired : Bool) :
    1 ≤ propertySamples samples isRequired ∧ propertySamples samples isRequired ≤ samples := by
  cases isRequired with
  | true => exact ⟨hpos, Nat.le_refl samples⟩
  | false =>
    show 1 ≤ max 1 (samples - 1) ∧ max 1 (samples - 1) ≤ samples
    omega

/-- All types of a loaded node have one count. -/
theorem mem_types_ofKeywords {samples : Nat} {types : List String}
    (keywords : List (String × Value)) :
    ∀ count ∈ (ofKeywords samples types keywords).types, count.2 = samples := by
  refine Table.forall_mem_ofEntries (P := fun count => count = samples) fun entry hentry => ?_
  obtain ⟨name, -, rfl⟩ := List.mem_map.mp hentry
  rfl

theorem names_types_ofKeywords (samples : Nat) (types : List String)
    (keywords : List (String × Value)) :
    Table.names (ofKeywords samples types keywords).types = types.eraseDups := by
  show Table.names (Table.ofEntries _) = _
  rw [Table.names_ofEntries, Table.names, List.map_map]
  exact congrArg List.eraseDups (List.map_id types)

theorem get?_types_ofKeywords {samples : Nat} {types : List String}
    (keywords : List (String × Value)) {name : String} (hname : name ∈ types) :
    Table.get? name (ofKeywords samples types keywords).types = some samples := by
  have hmem : name ∈ Table.names (ofKeywords samples types keywords).types := by
    rw [names_types_ofKeywords]
    exact List.mem_eraseDups.mpr hname
  obtain ⟨count, hcount⟩ := Option.isSome_iff_exists.mp (Table.isSome_get?_iff.mpr hmem)
  have hsamples : count = samples := mem_types_ofKeywords keywords _ (Table.mem_of_get?_eq_some hcount)
  rw [hcount, hsamples]

theorem coherent_ofKeywords {samples : Nat} (hpos : 1 ≤ samples) (types : List String)
    (keywords : List (String × Value)) (item : Option Node) {children : List (String × Node)}
    (hnames : (Table.names children).Nodup)
    (hchildren : ∀ child ∈ children, 1 ≤ child.2.samples ∧ child.2.samples ≤ samples) :
    Coherent { ofKeywords samples types keywords with item, properties := children } where
  types := fun count hcount => Nat.le_of_eq (mem_types_ofKeywords keywords count hcount)
  typeNames := Table.nodup_names_ofEntries _
  strings := by
    show (ofKeywords samples types keywords).strings ≤
      (Table.get? "string" (ofKeywords samples types keywords).types).getD 0
    by_cases hstring : "string" ∈ types
    · rw [get?_types_ofKeywords keywords hstring, Option.getD_some, ofKeywords]
      dsimp only
      generalize (if types.contains "string" then _ else _ : Option Value).isSome = hasFormat
      cases hasFormat <;> simp
    · simp [ofKeywords, hstring]
  formats := by
    show (ofKeywords samples types keywords).formats = none ↔
      (ofKeywords samples types keywords).strings = 0
    rw [ofKeywords]
    dsimp only
    generalize (if types.contains "string" then _ else _ : Option Value) = format
    cases format with
    | none => simp
    | some name => simp [Nat.ne_of_gt hpos]
  constant := by
    intro type v hv
    have hconstant : (if (Value.member "const" keywords).primitiveType.isScalar then
        Constant.candidate (Value.member "const" keywords).primitiveType
          (Value.member "const" keywords)
        else .unset) = .candidate type v := hv
    split at hconstant
    · rename_i hscalar
      obtain ⟨rfl, rfl⟩ := Constant.candidate.inj hconstant
      exact ⟨rfl, hscalar⟩
    · exact nomatch hconstant
  propertyNames := hnames
  properties := hchildren

/-- Loading makes a coherent tree, because a property gets at most the samples of its parent, and at
least one. -/
theorem coherent_ofOutline {v : Value} (hd : v.hasDistinctNames = true) {samples : Nat}
    (hpos : 1 ≤ samples) (hnode : ofOutline samples (.ofValue v) = .ok node) :
    node.Everywhere Coherent := by
  induction v using Value.schemaInduction generalizing samples node with
  | stray v hstray =>
    cases v with
    | object members => exact nomatch hstray
    | _ => exact nomatch hnode
  | schema members ihItems ihProperties =>
    rw [ofOutline_object] at hnode
    obtain ⟨types, -, hnode⟩ := except_bind_eq_ok hnode
    obtain ⟨item, hitem, hnode⟩ := except_bind_eq_ok hnode
    obtain ⟨children, hchildren, hnode⟩ := except_bind_eq_ok hnode
    obtain rfl := Except.ok.inj hnode
    have hnames : (Table.names children).Nodup :=
      nodup_names_of_partsOf Value.regular_hasDistinctMembers hd hchildren
    have hbounds : ∀ child ∈ children, 1 ≤ child.2.samples ∧ child.2.samples ≤ samples := by
      refine forall_mem_partsOf (P := fun child => 1 ≤ child.samples ∧ child.samples ≤ samples)
        hchildren fun fields _ field _ below hbelow => ?_
      rw [samples_ofOutline hbelow]
      exact propertySamples_bounds hpos _
    refine .intro (coherent_ofKeywords hpos types members item hnames hbounds) ?_ ?_
    · refine forall_mem_partOf hitem fun hne below hbelow => ?_
      exact ihItems _ (Value.mem_of_member_eq rfl hne) (Value.everywhere_member hd rfl hne) hpos
        hbelow
    · refine forall_mem_partsOf hchildren fun fields hfields field hfield below hbelow => ?_
      have hproperties := Value.everywhere_member hd hfields nofun
      exact ihProperties fields (Value.mem_of_member_eq hfields nofun) field hfield
        ((Value.everywhere_object_iff.mp hproperties).2 field hfield)
        (propertySamples_bounds hpos _).1 hbelow

/-! ## Whole trees -/

theorem everywhere_coherent_observe (hnode : node.Everywhere Coherent) {v : Value}
    (hd : v.hasDistinctNames = true) : (node.observe observer v).Everywhere Coherent :=
  hnode.observeAll coherent_fresh (fun _ hcoherent => hcoherent.propertyNames)
    (fun vs hvs _ hcoherent => coherent_observeAll vs hvs hcoherent) [v]
    (List.forall_mem_singleton.mpr hd)

theorem Coherent.overridden (h : node.Coherent) (override : Option String) :
    Coherent { node with override } :=
  ⟨h.types, h.typeNames, h.strings, h.formats, h.constant, h.propertyNames, h.properties⟩

theorem coherent_prescribe (predefined : List (String × String)) (h : node.Coherent) :
    (Session.prescribe predefined node).Coherent := by
  refine ⟨h.types, h.typeNames, h.strings, h.formats, h.constant, ?_, ?_⟩
  · rw [Session.properties_prescribe, Table.names, List.map_map]
    exact h.propertyNames
  · rw [Session.properties_prescribe]
    intro child hchild
    obtain ⟨entry, hentry, rfl⟩ := List.mem_map.mp hchild
    exact h.properties entry hentry

theorem everywhere_coherent_prescribe (predefined : List (String × String))
    (hnode : node.Everywhere Coherent) :
    (Session.prescribe predefined node).Everywhere Coherent :=
  hnode.prescribe (coherent_prescribe predefined hnode.here)
    fun _ override hcoherent => hcoherent.overridden override

end Node

namespace Session

/-- The root counts the samples of the session, and the tree is coherent throughout. -/
structure Coherent (session : Session) : Prop where
  count : session.root.samples = session.count
  tree : session.root.Everywhere Node.Coherent

theorem Coherent.of_alike {session other : Session} (h : session.Coherent)
    (halike : other.Alike session) : other.Coherent := by
  refine ⟨?_, ?_⟩
  · rw [halike.root, halike.count]
    exact h.count
  · rw [halike.root]
    exact h.tree

/-- **One call keeps a session coherent**, whether it counts a sample, loads a document, reads, or
fails. -/
theorem coherent_step {session : Session} (h : session.Coherent) {call : Call}
    (hcall : call.hasDistinctNames = true) : (session.step call).1.Coherent := by
  have hdistinct : ∀ change, session.change? call = some change →
      change.value.hasDistinctNames = true :=
    fun change hchange => hasDistinctNames_of_change? hcall hchange
  have heffect := effect_step session call
  generalize session.change? call = change at heffect hdistinct
  generalize session.step call = outcome at heffect ⊢
  cases heffect with
  | taken v hadd hopen =>
    show (session.add v).1.Coherent
    rw [add_of_not_isReached hopen]
    constructor
    · show (session.root.observe _ v).samples = session.count + 1
      rw [Node.samples_observe, h.count]
    · exact Node.everywhere_coherent_prescribe _
        (Node.everywhere_coherent_observe h.tree (hdistinct _ rfl))
  | dropped hadd hfull => exact h
  | loaded v hadd hform hload =>
    obtain ⟨-, hroot, -⟩ := loadable_eq_ok_iff.mp hload
    exact ⟨Node.samples_ofOutline hroot,
      Node.coherent_ofOutline (hdistinct _ rfl) (Nat.le_refl 1) hroot⟩
  | failed error hform hafter =>
    rcases hafter with rfl | rfl
    · exact h
    · exact h.of_alike (alike_remember session)
  | shown form hform => exact h.of_alike (alike_remember session)

theorem coherent_run_of_coherent {session : Session} (h : session.Coherent) {calls : List Call}
    (hcalls : ∀ call ∈ calls, call.hasDistinctNames = true) : (session.run calls).1.Coherent := by
  induction calls generalizing session with
  | nil => exact h
  | cons call rest ih =>
    obtain ⟨hfirst, hrest⟩ := List.forall_mem_cons.mp hcalls
    exact ih (coherent_step h hfirst) hrest

theorem coherent_fresh (options : Options) : Coherent { options } :=
  ⟨rfl, Node.everywhere_of_fresh Node.coherent_fresh⟩

/-- **The counters of a tree agree, in every run.** After any calls, in any order, the root counts
the samples of the session, and at every node of its tree no type and no text is counted more often
than values are, formats are looked for exactly if there were texts, a constant has its own type,
and every property was seen at least once and at most as often as its parent. -/
theorem coherent_run (options : Options) {calls : List Call}
    (hcalls : ∀ call ∈ calls, call.hasDistinctNames = true) :
    (run { options } calls).1.root.samples = (run { options } calls).1.count ∧
      (run { options } calls).1.root.Everywhere Node.Coherent := by
  have hafter := coherent_run_of_coherent (coherent_fresh options) hcalls
  exact ⟨hafter.count, hafter.tree⟩

/-- A document with optional, listed and formatted parts, and samples of other types behind it. -/
def mixedCalls : List Call :=
  [.load (.object [("type", .str "object"),
    ("properties", .object [
      ("tags", .object [("type", .str "array"), ("items", .object [])]),
      ("id", .object [("type", .list [.str "integer", .str "string"]), ("format", .str "uuid")])]),
    ("required", .list [.str "id"])]),
   .add (.object [("tags", .list [.str "a", .int 1, .null]), ("id", .float (.infinite false))]),
   .add .null]

/-- Options with a prescribed type, examples and all known formats. -/
def mixedOptions : Options :=
  ⟨[("id", "string")], .unlimited, ⟨true, Detector.known⟩, none, ""⟩

theorem coherent_run_mixedCalls :
    (run { options := mixedOptions } mixedCalls).1.root.samples = 3 ∧
      (run { options := mixedOptions } mixedCalls).1.root.Everywhere Node.Coherent := by
  have hcalls : ∀ call ∈ mixedCalls, call.hasDistinctNames = true := by decide
  exact coherent_run mixedOptions hcalls

end Session

end SampleSchema
