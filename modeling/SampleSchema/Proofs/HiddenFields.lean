import SampleSchema.Proofs.LoadedNode
import SampleSchema.Proofs.Promotion
/-!
# Fields whose values are hidden

A field of the root can be prescribed to have a type without parts. It is observed like any other,
with all its parts, but nothing of this is shown: neither its type, nor its constant, nor a format.
What is still seen is how often the field was there. So samples can differ in the values of such
fields, and the documents are written alike.

* `Options.Hides` says which fields these are, and `Value.AlikeBut` which samples differ in nothing
  else. Their members may stand in another order.
* `Batch.named_eq_of_alikeBut` and `Batch.length_named_eq_of_alikeBut`: such samples bring the same
  values to every field that is shown, and as many to every field that is hidden.
* `Node.bare_observeAll_congr`: apart from the properties, the root becomes the same node.
* `Document.toValue_assemble_congr`: two such roots are written alike if their properties are.
* `Session.toValue_assemble_of_alikeBut` puts this together, from any tree on.
-/

namespace SampleSchema

/-! ## Values that are alike but for hidden fields -/

/-- The prescribed types that have no parts to be shown. -/
def partlessTypes : List String :=
  ["datetime", "string", "boolean", "number", "integer"]

/-- A field of the root is hidden if it is prescribed to have a type without parts. -/
def Options.Hides (options : Options) (name : String) : Prop :=
  ∃ type ∈ partlessTypes, Table.get? name options.predefined = some type

/-- The same value, or two objects with the same members but for the hidden ones, of which one bears
those that the other bears. -/
inductive Value.AlikeBut (hidden : String → Prop) : Value → Value → Prop where
  | same (v : Value) : AlikeBut hidden v v
  | object {members others : List (String × Value)}
      (shown : ∀ name, ¬ hidden name → Table.get? name members = Table.get? name others)
      (borne : ∀ name, hidden name →
        ((Value.object members).Bears name ↔ (Value.object others).Bears name)) :
      AlikeBut hidden (.object members) (.object others)

namespace Value

theorem bears_object_iff {members : List (String × Value)} {name : String} :
    (object members).Bears name ↔ ∃ w, Table.get? name members = some w ∧ w ≠ .null := by
  constructor
  · rintro ⟨_, w, hmembers, hget, hne⟩
    obtain rfl := object.inj hmembers
    exact ⟨w, hget, hne⟩
  · rintro ⟨w, hget, hne⟩
    exact ⟨members, w, rfl, hget, hne⟩

/-- Under one name an object with distinct names gives at most the member that is looked up. -/
theorem valuesOf_givenMembers {members : List (String × Value)}
    (hd : (Table.names members).Nodup) (name : String) :
    Table.valuesOf name (object members).givenMembers =
      ((Table.get? name members).bind nonNull?).toList := by
  induction members with
  | nil => rfl
  | cons member rest ih =>
    obtain ⟨key, value⟩ := member
    obtain ⟨hkey, hrest⟩ := List.nodup_cons.mp hd
    have hsplit : (object ((key, value) :: rest)).givenMembers =
        (object [(key, value)]).givenMembers ++ (object rest).givenMembers := by
      rw [givenMembers, givenMembers, givenMembers, ← List.filter_append, List.singleton_append]
    rw [hsplit, Table.valuesOf_append, ih hrest, Table.get?]
    by_cases hname : key = name
    · subst hname
      rw [if_pos rfl, Table.get?_eq_none_iff.mpr hkey]
      cases value <;> simp [givenMembers, Table.valuesOf, isNull, nonNull?]
    · rw [if_neg hname]
      cases value <;> simp [givenMembers, Table.valuesOf, isNull, hname]

namespace AlikeBut

variable {hidden : String → Prop} {v w : Value} (h : v.AlikeBut hidden w)
include h

theorem bears_iff (name : String) : v.Bears name ↔ w.Bears name := by
  cases h with
  | same => exact Iff.rfl
  | object shown borne =>
    by_cases hname : hidden name
    · exact borne name hname
    · rw [bears_object_iff, bears_object_iff, shown name hname]

variable (hv : v.hasDistinctNames = true) (hw : w.hasDistinctNames = true)
include hv hw

theorem valuesOf_eq {name : String} (hname : ¬ hidden name) :
    Table.valuesOf name v.givenMembers = Table.valuesOf name w.givenMembers := by
  cases h with
  | same => rfl
  | @object members others shown borne =>
    have hd : (Table.names members).Nodup := of_decide_eq_true (test_of_everywhere hv)
    have hd' : (Table.names others).Nodup := of_decide_eq_true (test_of_everywhere hw)
    rw [valuesOf_givenMembers hd, valuesOf_givenMembers hd', shown name hname]

/-- A hidden field has a value on both sides or on neither. -/
theorem length_valuesOf_eq (name : String) :
    (Table.valuesOf name v.givenMembers).length = (Table.valuesOf name w.givenMembers).length := by
  have hmem : name ∈ Table.names v.givenMembers ↔ name ∈ Table.names w.givenMembers := by
    rw [mem_names_givenMembers_iff hv, mem_names_givenMembers_iff hw, h.bears_iff]
  rw [Table.length_valuesOf, Table.length_valuesOf, (nodup_names_givenMembers hv).count,
    (nodup_names_givenMembers hw).count]
  simp only [hmem]

end AlikeBut

end Value

/-! ## Batches and nodes -/

section Batches

variable {hidden : String → Prop} {vs ws : Batch}
  (h : List.Forall₂ (Value.AlikeBut hidden) vs ws) (hvs : ∀ v ∈ vs, v.hasDistinctNames = true)
  (hws : ∀ w ∈ ws, w.hasDistinctNames = true)
include h hvs hws

theorem Batch.named_eq_of_alikeBut {name : String} (hname : ¬ hidden name) :
    vs.named name = ws.named name := by
  induction h with
  | nil => rfl
  | cons hfirst _ ih =>
    obtain ⟨hv, hvs⟩ := List.forall_mem_cons.mp hvs
    obtain ⟨hw, hws⟩ := List.forall_mem_cons.mp hws
    rw [named_cons, named_cons, hfirst.valuesOf_eq hv hw hname, ih hvs hws]

theorem Batch.length_named_eq_of_alikeBut (name : String) :
    (vs.named name).length = (ws.named name).length := by
  induction h with
  | nil => rfl
  | cons hfirst _ ih =>
    obtain ⟨hv, hvs⟩ := List.forall_mem_cons.mp hvs
    obtain ⟨hw, hws⟩ := List.forall_mem_cons.mp hws
    rw [named_cons, named_cons, List.length_append, List.length_append,
      hfirst.length_valuesOf_eq hv hw, ih hvs hws]

namespace Node

variable (observer : Observer) (node : Node)

theorem get?_properties_observeAll_of_alikeBut {name : String} (hname : ¬ hidden name) :
    Table.get? name (node.observeAll observer vs).properties =
      Table.get? name (node.observeAll observer ws).properties := by
  rw [get?_properties_observeAll, get?_properties_observeAll,
    Batch.named_eq_of_alikeBut h hvs hws hname]

/-- A hidden child is there on both sides or on neither, and counts as many values. -/
theorem samples_properties_observeAll_of_alikeBut (name : String) :
    (Table.get? name (node.observeAll observer vs).properties).map samples =
      (Table.get? name (node.observeAll observer ws).properties).map samples := by
  have hlength := Batch.length_named_eq_of_alikeBut h hvs hws name
  have hnone : vs.named name = [] ↔ ws.named name = [] := by
    rw [← List.length_eq_zero_iff, hlength, List.length_eq_zero_iff]
  rw [get?_properties_observeAll, get?_properties_observeAll]
  simp only [hnone]
  split
  · rfl
  · rw [Option.map_some, Option.map_some, samples_observeAll, samples_observeAll, hlength]

end Node

end Batches

/-! ### All but the properties -/

namespace Node

/-- The node without its properties. -/
def bare (node : Node) : Node :=
  { node with properties := [] }

variable {observer : Observer} {node other : Node}

theorem bare_observe (v : Value) :
    (node.observe observer v).bare = (node.bare.observe observer v).bare := by
  cases v <;> rfl

/-- The members of an object are seen in the properties only, as long as no examples are kept. -/
theorem bare_observe_object (hexamples : observer.keepsExamples = false)
    (members others : List (String × Value)) :
    (node.observe observer (.object members)).bare =
      (node.observe observer (.object others)).bare := by
  obtain ⟨keepsExamples, detectors⟩ := observer
  obtain rfl : keepsExamples = false := hexamples
  rfl

theorem bare_observe_congr (hexamples : observer.keepsExamples = false) {hidden : String → Prop}
    {v w : Value} (h : v.AlikeBut hidden w) (hbare : node.bare = other.bare) :
    (node.observe observer v).bare = (other.observe observer w).bare := by
  have hv : (node.observe observer v).bare = (other.observe observer v).bare := by
    rw [bare_observe, hbare, ← bare_observe]
  rw [hv]
  cases h with
  | same => rfl
  | object => exact bare_observe_object hexamples _ _

theorem bare_observeAll_congr (hexamples : observer.keepsExamples = false)
    {hidden : String → Prop} {vs ws : Batch} (h : List.Forall₂ (Value.AlikeBut hidden) vs ws)
    (hbare : node.bare = other.bare) :
    (node.observeAll observer vs).bare = (other.observeAll observer ws).bare := by
  induction h generalizing node other with
  | nil => exact hbare
  | cons hfirst _ ih => exact ih (bare_observe_congr hexamples hfirst hbare)

theorem eq_of_bare_eq (h : node.bare = other.bare) :
    other = { node with properties := other.properties } := by
  obtain ⟨samples, strings, types, formats, constant, exemplar, item, properties, override⟩ := node
  obtain ⟨samples', strings', types', formats', constant', exemplar', item', properties',
    override'⟩ := other
  obtain ⟨rfl, rfl, rfl, rfl, rfl, rfl, rfl, -, rfl⟩ := Node.mk.inj h
  rfl

/-- What is required depends on the counts of the children only. -/
theorem required_eq_of_samples (hnames : (Table.names node.properties).Nodup)
    (hnames' : (Table.names other.properties).Nodup) (hsamples : node.samples = other.samples)
    (hchildren : ∀ name, (Table.get? name node.properties).map samples =
      (Table.get? name other.properties).map samples) :
    node.required = other.required := by
  have hmem : ∀ name, name ∈ node.required ↔ name ∈ other.required := by
    intro name
    have hlevel : ∀ node : Node, (∃ child, Table.get? name node.properties = some child ∧
        child.samples = node.samples) ↔
          (Table.get? name node.properties).map samples = some node.samples := by
      intro node
      rw [Option.map_eq_some_iff]
    rw [mem_required_iff_samples hnames, mem_required_iff_samples hnames', hlevel, hlevel,
      hchildren, hsamples]
  have hsorted := pairwise_lt_required_of_nodup hnames
  have hsorted' := pairwise_lt_required_of_nodup hnames'
  have hperm : node.required.Perm other.required :=
    (List.perm_ext_iff_of_nodup (hsorted.imp String.ne_of_lt)
      (hsorted'.imp String.ne_of_lt)).mpr hmem
  exact hperm.eq_of_pairwise (fun a b _ _ hab hba => absurd hba (String.lt_asymm hab)) hsorted
    hsorted'

end Node

/-! ## Documents -/

namespace Document

/-- The properties of a document are written by ascending name, in whatever order they stand. -/
theorem toValue_eq_of_members {document : Document} {others : List (String × Document)}
    (h : ascending (·.1) (toMembers document.properties) = ascending (·.1) (toMembers others)) :
    document.toValue = { document with properties := others }.toValue := by
  have hlength := congrArg List.length h
  rw [(ascending_perm _ _).length_eq, (ascending_perm _ _).length_eq, toMembers_eq_map,
    toMembers_eq_map, List.length_map, List.length_map] at hlength
  have hempty : document.properties = [] ↔ others = [] := by
    rw [← List.length_eq_zero_iff, hlength, List.length_eq_zero_iff]
  rw [toValue_eq, toValue_eq, keywords, keywordUnlessEmpty_congr "properties" hempty, h]
  rfl

/-- The members of the properties object of a node, as they are written. -/
def shownMembers (properties : List (String × Node)) : List (String × Value) :=
  ascending (·.1) (toMembers (properties.map fun child => (child.1, assemble none child.2)))

theorem shownMembers_eq_of_get? {properties others : List (String × Node)}
    (hnames : (Table.names properties).Nodup) (hnames' : (Table.names others).Nodup)
    (h : ∀ name, (Table.get? name properties).map (fun child => (assemble none child).toValue) =
      (Table.get? name others).map fun child => (assemble none child).toValue) :
    shownMembers properties = shownMembers others := by
  have hmembers : ∀ properties : List (String × Node),
      toMembers (properties.map fun child => (child.1, assemble none child.2)) =
        properties.map fun child => (child.1, (assemble none child.2).toValue) := by
    intro properties
    rw [toMembers_eq_map, List.map_map]
    rfl
  unfold shownMembers
  rw [hmembers, hmembers]
  refine Table.ascending_eq_of_get? ?_ ?_ fun name => ?_
  · rw [Table.names_map fun child => (assemble none child).toValue]
    exact hnames
  · rw [Table.names_map fun child => (assemble none child).toValue]
    exact hnames'
  · rw [Table.get?_map fun _ child => (assemble none child).toValue,
      Table.get?_map fun _ child => (assemble none child).toValue]
    exact h name

/-- Nodes that differ in their properties only are written alike if those are shown alike. -/
theorem toValue_assemble_congr {node other : Node} (hbare : node.bare = other.bare)
    (hrequired : node.required = other.required)
    (hmembers : shownMembers node.properties = shownMembers other.properties)
    (version : Option Value) :
    (assemble version node).toValue = (assemble version other).toValue := by
  have hother := Node.eq_of_bare_eq hbare
  generalize other.properties = others at hother hmembers
  subst hother
  rw [assemble_eq, assemble_eq]
  dsimp only
  cases node.override.filter (· != "") with
  | some type =>
    dsimp only
    unfold ofOverride
    split
    · rfl
    · split
      · rfl
      · split
        · exact toValue_eq_of_members hmembers
        · rfl
  | none =>
    dsimp only
    unfold ofObservations
    rw [← hrequired]
    refine toValue_eq_of_members ?_
    have hprimary : ({ node with properties := others } : Node).primaryType? =
        node.primaryType? := rfl
    rw [hprimary]
    dsimp only
    split
    · exact hmembers
    · rfl

end Document

/-! ## Hidden fields -/

namespace Options.Hides

open Document Session

variable {options : Options} {name : String}

/-- Nothing of what was observed is shown of a hidden field. -/
theorem exists_assemble_prescribed (h : options.Hides name) :
    ∃ document, ∀ child, assemble none (prescribed options.predefined name child) = document := by
  obtain ⟨type, htype, hget⟩ := h
  refine ⟨ofOverride none type none [], fun child => ?_⟩
  have hnonempty : type ≠ "" := by
    rintro rfl
    exact absurd htype (by decide)
  have hoverride : (prescribed options.predefined name child).override.filter (· != "") =
      some type := by
    show ((Table.get? name options.predefined).or child.override).filter (· != "") = _
    rw [hget]
    simp [hnonempty]
  rw [assemble_eq, hoverride]
  unfold partlessTypes at htype
  simp only [List.mem_cons, List.not_mem_nil, or_false] at htype
  rcases htype with rfl | rfl | rfl | rfl | rfl <;> rfl

end Options.Hides

namespace Session

theorem toValue_assemble_of_alikeBut {options : Options}
    (hexamples : options.observer.keepsExamples = false) {vs ws : Batch}
    (h : List.Forall₂ (Value.AlikeBut options.Hides) vs ws)
    (hvs : ∀ v ∈ vs, v.hasDistinctNames = true) (hws : ∀ w ∈ ws, w.hasDistinctNames = true)
    {start : Node} (hnames : (Table.names start.properties).Nodup) (version : Option Value) :
    (Document.assemble version
      (prescribe options.predefined (start.observeAll options.observer vs))).toValue =
    (Document.assemble version
      (prescribe options.predefined (start.observeAll options.observer ws))).toValue := by
  have hnodup : ∀ us : Batch,
      (Table.names (start.observeAll options.observer us).properties).Nodup := by
    intro us
    rw [Node.properties_observeAll]
    exact Table.nodup_names_gather _ _ _ hnames
  have hbare := Node.bare_observeAll_congr hexamples h (rfl : start.bare = start.bare)
  -- types are prescribed for the properties only
  have hbare' : (prescribe options.predefined (start.observeAll options.observer vs)).bare =
      (prescribe options.predefined (start.observeAll options.observer ws)).bare := hbare
  refine Document.toValue_assemble_congr hbare' ?_ ?_ version
  · rw [required_prescribe, required_prescribe]
    refine Node.required_eq_of_samples (hnodup vs) (hnodup ws) ?_ ?_
    · rw [Node.samples_observeAll, Node.samples_observeAll, h.length_eq]
    · exact Node.samples_properties_observeAll_of_alikeBut h hvs hws _ _
  · have hprescribed : ∀ us : Batch, (Table.names (prescribe options.predefined
        (start.observeAll options.observer us)).properties).Nodup := by
      intro us
      rw [properties_prescribe, Table.names, List.map_map]
      exact hnodup us
    refine Document.shownMembers_eq_of_get? (hprescribed vs) (hprescribed ws) fun name => ?_
    rw [properties_prescribe, properties_prescribe, Table.get?_map, Table.get?_map, Option.map_map,
      Option.map_map]
    by_cases hname : options.Hides name
    · obtain ⟨document, hdocument⟩ := hname.exists_assemble_prescribed
      have hthere := congrArg (Option.map fun _ => document.toValue)
        (Node.samples_properties_observeAll_of_alikeBut h hvs hws options.observer start name)
      rw [Option.map_map, Option.map_map] at hthere
      simp only [Function.comp_def, hdocument] at hthere ⊢
      exact hthere
    · rw [Node.get?_properties_observeAll_of_alikeBut h hvs hws options.observer start hname]

end Session

end SampleSchema
