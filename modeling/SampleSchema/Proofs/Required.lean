import SampleSchema.Proofs.Position
/-!
# Required names are exact

A document requires a property if the child of the property counts as many values as the
position itself. The two counters are advanced by different calls, and the one of the position
also counts nulls, strings and arrays. That equal counts mean a member in every single value
is a pigeonhole argument: an object has at most one member of a name, so each value adds at
most one to the counter of the child, and exactly one to that of the position.

* `length_named_eq_length_iff` is that argument, for an arbitrary batch.
* `required_sub?_assemble` is the property of documents, at every position.
-/

namespace SampleSchema

/-- The value is an object with a member of this name that is not null. -/
def Value.Bears (name : String) (v : Value) : Prop :=
  ∃ members w, v = .object members ∧ Table.get? name members = some w ∧ w ≠ .null

/-! ## The members of one name in one value -/

theorem Table.length_valuesOf {α : Type} (name : String) (entries : List (String × α)) :
    (valuesOf name entries).length = (names entries).count name := by
  induction entries with
  | nil => rfl
  | cons entry rest ih =>
    obtain ⟨key, value⟩ := entry
    rw [names_cons, List.count_cons, ← ih]
    by_cases h : key = name <;> simp [valuesOf, h]

namespace Value

theorem nodup_names_givenMembers {v : Value} (hd : v.hasDistinctNames = true) :
    (Table.names v.givenMembers).Nodup := by
  cases v with
  | object members =>
    have htop : (Table.names members).Nodup := of_decide_eq_true (test_of_everywhere hd)
    exact htop.sublist (List.filter_sublist.map _)
  | _ => exact .nil

theorem mem_names_givenMembers_iff {name : String} {v : Value} (hd : v.hasDistinctNames = true) :
    name ∈ Table.names v.givenMembers ↔ v.Bears name := by
  constructor
  · -- the member that gave the name is the one that is looked up
    intro h
    obtain ⟨⟨key, w⟩, hmem, rfl⟩ := List.mem_map.mp h
    obtain ⟨members, rfl, hin, hne⟩ := mem_givenMembers.mp hmem
    have htop : (Table.names members).Nodup := of_decide_eq_true (test_of_everywhere hd)
    exact ⟨members, w, rfl, Table.get?_eq_some_of_mem htop hin, hne⟩
  · intro h
    obtain ⟨members, w, rfl, hget, hne⟩ := h
    have hmem : (name, w) ∈ (object members).givenMembers :=
      mem_givenMembers.mpr ⟨members, rfl, Table.mem_of_get?_eq_some hget, hne⟩
    exact List.mem_map.mpr ⟨(name, w), hmem, rfl⟩

end Value

/-! ## The pigeonhole -/

namespace Batch

variable {vs : Batch} (hd : ∀ v ∈ vs, v.hasDistinctNames = true)
include hd

theorem length_named_le_length (name : String) : (vs.named name).length ≤ vs.length := by
  induction vs with
  | nil => exact Nat.le_refl 0
  | cons v rest ih =>
    have hv := Value.nodup_names_givenMembers (hd v List.mem_cons_self)
    have hone : (Table.names v.givenMembers).count name ≤ 1 :=
      List.nodup_iff_count_le_one.mp hv name
    have hrest := ih fun w hw => hd w (List.mem_cons_of_mem v hw)
    rw [named_cons, List.length_append, Table.length_valuesOf, List.length_cons]
    omega

theorem length_named_eq_length_iff (name : String) :
    (vs.named name).length = vs.length ↔ ∀ v ∈ vs, v.Bears name := by
  induction vs with
  | nil => simp [named, entries]
  | cons v rest ih =>
    have hrestd : ∀ w ∈ rest, w.hasDistinctNames = true :=
      fun w hw => hd w (List.mem_cons_of_mem v hw)
    have hv := Value.nodup_names_givenMembers (hd v List.mem_cons_self)
    have hone : (Table.names v.givenMembers).count name ≤ 1 :=
      List.nodup_iff_count_le_one.mp hv name
    have hbears : 0 < (Table.names v.givenMembers).count name ↔ v.Bears name :=
      List.count_pos_iff.trans (Value.mem_names_givenMembers_iff (hd v List.mem_cons_self))
    have hle := length_named_le_length hrestd name
    rw [List.forall_mem_cons, ← ih hrestd, ← hbears, named_cons, List.length_append,
      Table.length_valuesOf, List.length_cons]
    -- the head adds at most one and the rest at most its length, so neither may fall short
    omega

end Batch

/-! ## From counters to documents -/

namespace Node

theorem required_observeAll_fresh (observer : Observer) (vs : Batch) :
    (observeAll observer vs {}).required =
      ascending id (vs.fieldNames.eraseDups.filter fun name =>
        (vs.named name).length == vs.length) := by
  rw [required, properties_observeAll_fresh, samples_observeAll, Table.names, List.filter_map,
    List.map_map]
  simp only [Function.comp_def, samples_observeAll, List.map_id']
  simp

theorem mem_required_iff {observer : Observer} {vs : Batch} {name : String} (hvs : vs ≠ [])
    (hd : ∀ v ∈ vs, v.hasDistinctNames = true) :
    name ∈ (observeAll observer vs {}).required ↔ ∀ v ∈ vs, v.Bears name := by
  rw [required_observeAll_fresh, mem_ascending, List.mem_filter, List.mem_eraseDups,
    beq_iff_eq, Batch.length_named_eq_length_iff hd]
  refine and_iff_right_of_imp fun h => ?_
  -- the batch has a value, and it bears the name
  obtain ⟨v, rest, rfl⟩ := List.exists_cons_of_ne_nil hvs
  have hmem := (Value.mem_names_givenMembers_iff (hd v List.mem_cons_self)).mpr
    (h v List.mem_cons_self)
  rw [Batch.fieldNames, Batch.entries_cons, Table.names, List.map_append]
  exact List.mem_append_left _ hmem

theorem pairwise_lt_required_of_nodup {node : Node}
    (hnames : (Table.names node.properties).Nodup) : node.required.Pairwise (· < ·) :=
  pairwise_lt_ascending (hnames.sublist (List.filter_sublist.map _))

theorem pairwise_lt_required (observer : Observer) (vs : Batch) :
    (observeAll observer vs {}).required.Pairwise (· < ·) := by
  refine pairwise_lt_required_of_nodup ?_
  rw [properties_observeAll]
  exact Table.nodup_names_gather _ _ _ .nil

theorem primaryType?_eq_object_of_bears {observer : Observer} {vs : Batch} {name : String}
    (hvs : vs ≠ []) (h : ∀ v ∈ vs, v.Bears name) :
    (observeAll observer vs {}).primaryType? = some "object" := by
  obtain ⟨type, htype⟩ := exists_primaryType?_eq_some observer vs hvs
  obtain ⟨v, hv, rfl⟩ := List.mem_map.mp (mem_tags_of_primaryType?_eq_some observer vs htype)
  obtain ⟨members, w, rfl, -, -⟩ := h v hv
  exact htype

end Node

namespace Document

/-- **Required is exact, at every position.** Fresh observation of a batch leads to a document
whose required names, at any position that it shows and some value reached, ascend strictly and
are exactly the names that every value that reached the position bears. -/
theorem required_sub?_assemble {observer : Observer} {vs : Batch}
    (hd : ∀ v ∈ vs, v.hasDistinctNames = true) {version : Option Value} {position : Position}
    {document : Document}
    (hshown : sub? position (assemble version (Node.observeAll observer vs {})) = some document)
    (hreached : vs.reached position ≠ []) :
    ∃ names : List String, document.required = names.map Value.str ∧
      names.Pairwise (· < ·) ∧
      ∀ name, name ∈ names ↔ ∀ v ∈ vs.reached position, v.Bears name := by
  obtain ⟨version, rfl⟩ := sub?_ofBatch observer version vs hshown
  have hreachedd := Batch.everywhere_reached position hd
  rw [ofBatch_eq]
  -- required is shown for objects only, and no other type leaves room for a required name
  by_cases hobject :
      (Node.observeAll observer (vs.reached position) {}).primaryType? = some "object"
  · refine ⟨(Node.observeAll observer (vs.reached position) {}).required, ?_,
      Node.pairwise_lt_required observer _, fun name => Node.mem_required_iff hreached hreachedd⟩
    exact if_pos hobject
  · -- required is not shown, and no name is borne by every value
    refine ⟨[], if_neg hobject, .nil, fun name => ?_⟩
    simp only [List.not_mem_nil, false_iff]
    exact fun h => hobject (Node.primaryType?_eq_object_of_bears hreached h)

/-- Two samples with an object inside: the inner objects share one name only. -/
def nestedSamples : Batch :=
  [.object [("a", .object [("b", .int 1)])],
   .object [("a", .object [("b", .int 2), ("c", .int 3)])]]

theorem required_inner_nestedSamples :
    ∃ names : List String, [Value.str "b"] = names.map Value.str ∧
      names.Pairwise (· < ·) ∧
      ∀ name, name ∈ names ↔ ∀ v ∈ nestedSamples.reached [some "a"], v.Bears name := by
  have hd : ∀ v ∈ nestedSamples, v.hasDistinctNames = true := by decide
  have hshown :
      sub? [some "a"] (assemble none (Node.observeAll ⟨false, []⟩ nestedSamples {})) =
        some {
          type := some (.str "object")
          properties := [("b", { type := some (.str "integer") }),
            ("c", { type := some (.str "integer"), constant := some (.int 3) })]
          required := [.str "b"] } := rfl
  have hreached : nestedSamples.reached [some "a"] ≠ [] := nofun
  exact required_sub?_assemble hd hshown hreached

end Document

end SampleSchema
