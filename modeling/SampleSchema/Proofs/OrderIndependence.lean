import SampleSchema.Proofs.Ingestion
import SampleSchema.Proofs.Position
import SampleSchema.Proofs.Reordering
import SampleSchema.Proofs.Required
import SampleSchema.Proofs.Respelling
/-!
# The order of samples does not matter

Much of a node depends on the order of what it observed: the constant is the first scalar, types
and children stand in the order of first sight, and the formats are narrowed down from the first
text on. None of this is seen in the document, but for the spelling of a constant.

* `Node.Alike` lists what a document shows of one node. Fresh nodes that observed reordered
  batches are alike (`Node.alike_observeAll_fresh`).
* `Document.respelled_prescribedBatch` carries this to documents, by `Batch.induction`: the
  batches of the parts are reordered again, and a prescribed type hides the node on both sides.
* `Session.document_addAll_reordered` is the property of sessions. Samples that come in one by
  one are one batch at the root, because prescription and observation need not alternate.
-/

namespace SampleSchema

namespace Node

/-! ## Alike nodes -/

/-- Two nodes of which a document shows the same, but for the spelling of the constant. -/
structure Alike (node other : Node) : Prop where
  typeOf : Document.typeOf node = Document.typeOf other
  primaryType : node.primaryType? = other.primaryType?
  required : node.required = other.required
  format : node.format? = other.format?
  constant : Option.Rel Value.Interchangeable node.constant? other.constant?
  exemplar : node.exemplar = other.exemplar

variable {vs ws : Batch} (observer : Observer) (h : Batch.Reordered vs ws)
include h

/-! ## What a node shows of reordered batches -/

theorem types_perm_of_reordered :
    (observeAll observer vs {}).types.Perm (observeAll observer ws {}).types := by
  have htags : vs.tags.Perm ws.tags := h.tags_perm
  have hcount : ∀ tag, vs.tags.count tag = ws.tags.count tag := fun tag => htags.count_eq tag
  rw [types_observeAll_fresh, types_observeAll_fresh]
  simp only [hcount]
  exact (eraseDups_perm htags).map _

theorem primaryType?_eq_of_reordered :
    (observeAll observer vs {}).primaryType? = (observeAll observer ws {}).primaryType? := by
  have htypes := types_perm_of_reordered observer h
  have hnodup : (Table.names (observeAll observer vs {}).types).Nodup := by
    rw [names_types_observeAll_fresh]
    exact nodup_eraseDups vs.tags
  rw [primaryType?, primaryType?, dominant?_eq_of_perm hnodup htypes]

theorem observedTypes_eq_of_reordered :
    (observeAll observer vs {}).observedTypes = (observeAll observer ws {}).observedTypes := by
  have htypes := types_perm_of_reordered observer h
  have hnames : (Table.names (observeAll observer vs {}).types).Perm
      (Table.names (observeAll observer ws {}).types) := htypes.map _
  rw [observedTypes, observedTypes]
  exact ascending_eq_of_perm (hnames.filter _)

theorem typeOf_eq_of_reordered :
    Document.typeOf (observeAll observer vs {}) = Document.typeOf (observeAll observer ws {}) := by
  -- the keyword depends on how many types there are, and lists them by name
  have hlength := (types_perm_of_reordered observer h).length_eq
  unfold Document.typeOf
  rw [hlength, observedTypes_eq_of_reordered observer h, primaryType?_eq_of_reordered observer h]

theorem required_eq_of_reordered :
    (observeAll observer vs {}).required = (observeAll observer ws {}).required := by
  have hlength : vs.length = ws.length := h.length_eq
  have hnamed : ∀ name, (vs.named name).length = (ws.named name).length :=
    fun name => (h.named name).length_eq
  have hnames : vs.fieldNames.eraseDups.Perm ws.fieldNames.eraseDups :=
    eraseDups_perm h.fieldNames_perm
  rw [required_observeAll_fresh, required_observeAll_fresh]
  simp only [hlength, hnamed]
  exact ascending_eq_of_perm (hnames.filter _)

theorem formats_eq_of_reordered :
    (observeAll observer vs {}).formats = (observeAll observer ws {}).formats := by
  have htexts : vs.texts.Perm ws.texts := h.texts_perm
  have hall : ∀ format : Detector, vs.texts.all format.accepts = ws.texts.all format.accepts :=
    fun format => htexts.all_eq
  have hnil : vs.texts = [] ↔ ws.texts = [] := by
    constructor
    · intro hv
      rw [hv] at htexts
      exact htexts.symm.eq_nil
    · intro hw
      rw [hw] at htexts
      exact htexts.eq_nil
  -- seeded by whichever text came first, the formats are those that all texts have
  rw [formats_observeAll, formats_observeAll]
  simp only [hall, hnil]

theorem constant?_interchangeable_of_reordered :
    Option.Rel Value.Interchangeable (observeAll observer vs {}).constant?
      (observeAll observer ws {}).constant? := by
  have hscalars : vs.scalars.Perm ws.scalars := h.scalars_perm
  have hpairs : vs.scalars.Pairwise Value.Agrees ↔ ws.scalars.Pairwise Value.Agrees :=
    hscalars.pairwise_iff fun hvw => hvw.symm
  rw [constant?_observeAll_fresh, constant?_observeAll_fresh]
  by_cases hagree : vs.scalars.Pairwise Value.Agrees
  · rw [if_pos hagree, if_pos (hpairs.mp hagree)]
    cases hv : vs.scalars with
    | nil =>
      rw [hv] at hscalars
      rw [hscalars.symm.eq_nil]
      exact .none
    | cons first later =>
      cases hw : ws.scalars with
      | nil =>
        rw [hv, hw] at hscalars
        exact absurd hscalars.eq_nil (List.cons_ne_nil first later)
      | cons other rest =>
        -- the first scalar of the other batch is somewhere in this one, and agrees with the first
        rw [hv] at hagree
        have hmem : other ∈ first :: later := by
          rw [← hv]
          exact hscalars.mem_iff.mpr (hw ▸ List.mem_cons_self)
        refine .some ?_
        rcases List.mem_cons.mp hmem with rfl | hlater
        · exact .inl rfl
        · exact .of_sameScalar (pairwise_agrees_cons.mp hagree other hlater).2
  · rw [if_neg hagree, if_neg fun hw => hagree (hpairs.mpr hw)]
    exact .none

theorem alike_observeAll_fresh (hexamples : observer.keepsExamples = false) :
    Alike (observeAll observer vs {}) (observeAll observer ws {}) where
  typeOf := typeOf_eq_of_reordered observer h
  primaryType := primaryType?_eq_of_reordered observer h
  required := required_eq_of_reordered observer h
  format := by
    unfold format?
    rw [formats_eq_of_reordered observer h]
  constant := constant?_interchangeable_of_reordered observer h
  exemplar := by
    have hnone : ∀ vs : Batch, (observeAll observer vs {}).exemplar = none := by
      intro vs
      rw [exemplar_observeAll, hexamples]
      rfl
    rw [hnone, hnone]

end Node

/-! ## From nodes to documents -/

namespace Document

section Parts

variable {items others : Option Document} {children siblings : List (String × Document)}
  (hitems : Option.Rel Respelled (itemsToValue items) (itemsToValue others))
  (hchildren : List.Forall₂ RespelledProperty (ascending (·.1) (toMembers children))
    (ascending (·.1) (toMembers siblings)))
include hitems hchildren

theorem respelling_ofObservations (version : Option Value) {node other : Node}
    (h : node.Alike other) :
    Respelling (ofObservations version node items children)
      (ofObservations version other others siblings) := by
  unfold ofObservations
  rw [h.typeOf, h.primaryType, h.required, h.format, h.exemplar]
  constructor
  case properties =>
    show List.Forall₂ RespelledProperty (ascending _ (toMembers (if _ then _ else _)))
      (ascending _ (toMembers (if _ then _ else _)))
    split
    · exact hchildren
    · exact .nil
  case items =>
    show Option.Rel Respelled (itemsToValue (if _ then _ else _))
      (itemsToValue (if _ then _ else _))
    split
    · exact hitems
    · exact .none
  case constant => exact h.constant
  all_goals rfl

/-- A prescribed type hides the node, and shows at most its parts. -/
theorem respelling_ofOverride (version : Option Value) (override : String) :
    Respelling (ofOverride version override items children)
      (ofOverride version override others siblings) := by
  have hnil : List.Forall₂ RespelledProperty (ascending (·.1) (toMembers []))
      (ascending (·.1) (toMembers [])) := .nil
  unfold ofOverride
  split
  · exact ⟨rfl, rfl, hnil, .none, rfl, rfl, .none, rfl, rfl⟩
  · split
    · exact ⟨rfl, rfl, hnil, hitems, rfl, rfl, .none, rfl, rfl⟩
    · split
      · exact ⟨rfl, rfl, hchildren, .none, rfl, rfl, .none, rfl, rfl⟩
      · exact ⟨rfl, rfl, hnil, .none, rfl, rfl, .none, rfl, rfl⟩

end Parts

/-- Alike nodes with one prescribed type, or none, are written alike if their parts are. -/
theorem respelled_assemble (version : Option Value) {node other : Node} (h : node.Alike other)
    (hoverride : node.override = other.override)
    (hitems : Option.Rel Respelled (itemsToValue (node.item.map (assemble none)))
      (itemsToValue (other.item.map (assemble none))))
    (hchildren : List.Forall₂ RespelledProperty
      (ascending (·.1) (toMembers
        (node.properties.map fun child => (child.1, assemble none child.2))))
      (ascending (·.1) (toMembers
        (other.properties.map fun child => (child.1, assemble none child.2))))) :
    Respelled (assemble version node).toValue (assemble version other).toValue := by
  apply Respelling.toValue
  rw [assemble_eq, assemble_eq, hoverride]
  cases other.override.filter (· != "") with
  | none => exact respelling_ofObservations hitems hchildren version h
  | some override => exact respelling_ofOverride hitems hchildren version override

/-! ## Reordered batches -/

section Batches

variable {observer : Observer} {vs ws : Batch}

theorem items_respelled (h : Batch.Reordered vs ws)
    (helements : vs.hasArray = true →
      Respelled (ofBatch observer none vs.elements).toValue
        (ofBatch observer none ws.elements).toValue) :
    Option.Rel Respelled
      (itemsToValue ((Node.observeAll observer vs {}).item.map (assemble none)))
      (itemsToValue ((Node.observeAll observer ws {}).item.map (assemble none))) := by
  rw [Node.item_observeAll_fresh, Node.item_observeAll_fresh, ← h.hasArray_eq]
  by_cases harray : vs.hasArray = true
  · rw [if_pos harray, if_pos harray]
    exact .some (helements harray)
  · rw [if_neg harray, if_neg harray]
    exact .none

/-- Whatever becomes of the children one by one, they are shown by ascending name. -/
theorem children_respelled (make : String → Node → Node) (h : Batch.Reordered vs ws)
    (hmake : ∀ name ∈ vs.fieldNames,
      Respelled (assemble none (make name (Node.observeAll observer (vs.named name) {}))).toValue
        (assemble none (make name (Node.observeAll observer (ws.named name) {}))).toValue) :
    List.Forall₂ RespelledProperty
      (ascending (·.1) (toMembers ((Node.observeAll observer vs {}).properties.map fun child =>
        (child.1, assemble none (make child.1 child.2)))))
      (ascending (·.1) (toMembers ((Node.observeAll observer ws {}).properties.map fun child =>
        (child.1, assemble none (make child.1 child.2))))) := by
  have hnames : vs.fieldNames.eraseDups.Perm ws.fieldNames.eraseDups :=
    eraseDups_perm h.fieldNames_perm
  rw [Node.properties_observeAll_fresh, Node.properties_observeAll_fresh, List.map_map,
    List.map_map]
  refine forall₂_ascending hnames fun name hname => ?_
  exact hmake name (List.mem_eraseDups.mp hname)

theorem respelled_ofBatch (hexamples : observer.keepsExamples = false)
    (h : Batch.Reordered vs ws) (version : Option Value) :
    Respelled (ofBatch observer version vs).toValue (ofBatch observer version ws).toValue := by
  induction vs using Batch.induction generalizing ws version with
  | step vs ihelements ihnamed =>
    -- the root of this batch is alike, and the batches of the parts are reordered again
    refine respelled_assemble version (Node.alike_observeAll_fresh observer h hexamples) ?_ ?_ ?_
    · rw [Node.override_observeAll, Node.override_observeAll]
    · exact items_respelled h fun harray => ihelements harray h.elements none
    · have hnamed := fun name hname => ihnamed name hname (h.named name) none
      exact children_respelled (fun _ child => child) h hnamed

theorem respelled_overridden (hexamples : observer.keepsExamples = false)
    (h : Batch.Reordered vs ws) (version : Option Value) (override : Option String) :
    Respelled
      (assemble version { Node.observeAll observer vs {} with override }).toValue
      (assemble version { Node.observeAll observer ws {} with override }).toValue := by
  have halike := Node.alike_observeAll_fresh observer h hexamples
  -- a prescribed type changes nothing but the override, which no field of `Alike` reads
  refine respelled_assemble version ?_ rfl ?_ ?_
  · exact ⟨halike.typeOf, halike.primaryType, halike.required, halike.format, halike.constant,
      halike.exemplar⟩
  · exact items_respelled h fun _ => respelled_ofBatch hexamples h.elements none
  · exact children_respelled (fun _ child => child) h fun name _ =>
      respelled_ofBatch hexamples (h.named name) none

end Batches

end Document

/-! ## Sessions -/

namespace Session

theorem respelled_prescribe {observer : Observer} (hexamples : observer.keepsExamples = false)
    {vs ws : Batch} (h : Batch.Reordered vs ws) (version : Option Value)
    (predefined : List (String × String)) :
    Respelled
      (Document.assemble version (prescribe predefined (Node.observeAll observer vs {}))).toValue
      (Document.assemble version
        (prescribe predefined (Node.observeAll observer ws {}))).toValue := by
  have halike := Node.alike_observeAll_fresh observer h hexamples
  refine Document.respelled_assemble version ?_ ?_ ?_ ?_
  · refine ⟨halike.typeOf, halike.primaryType, ?_, halike.format, halike.constant,
      halike.exemplar⟩
    rw [required_prescribe, required_prescribe]
    exact halike.required
  · show (Node.observeAll observer vs {}).override = (Node.observeAll observer ws {}).override
    rw [Node.override_observeAll, Node.override_observeAll]
  · exact Document.items_respelled h fun _ =>
      Document.respelled_ofBatch hexamples h.elements none
  · rw [properties_prescribe, properties_prescribe, List.map_map, List.map_map]
    refine Document.children_respelled (prescribed predefined) h fun name _ => ?_
    -- the type of a child is looked up by its name, whatever was observed
    unfold prescribed
    rw [Node.override_observeAll, Node.override_observeAll]
    exact Document.respelled_overridden hexamples (h.named name) none _

theorem document_addAll_of_start {settings : Settings} {session : Session}
    (hstart : start settings = .ok session) (hcap : session.options.cap = .unlimited)
    {vs : Batch} (hvs : vs ≠ []) :
    (session.addAll vs).1.document = .ok (Document.assemble session.options.version
      (prescribe session.options.predefined
        (Node.observeAll session.options.observer vs {}))) := by
  obtain ⟨v, rest, rfl⟩ := List.exists_cons_of_ne_nil hvs
  have hroot : session.root = {} := by rw [start_eq hstart]
  have hcount : session.count + (v :: rest).length ≠ 0 := by
    rw [List.length_cons]
    omega
  rw [addAll_cons_of_unlimited hcap, document, if_neg hcount, hroot]
  rfl

theorem document_addAll_nil_of_start {settings : Settings} {session : Session}
    (hstart : start settings = .ok session) :
    (session.addAll []).1.document = .error .noSamples := by
  rw [start_eq hstart]
  rfl

/-- **The order of samples does not matter.** Two sessions with the same settings, without a cap
and without examples, take in samples that differ in their order and in the order of array
elements and object members, at any depth. Then both have no document, because there was no
sample, or the documents are written alike, in the same order of keywords and properties, but
for constants that are the same number. -/
theorem document_addAll_reordered {settings : Settings} {session : Session}
    (hstart : start settings = .ok session) (hcap : session.options.cap = .unlimited)
    (hexamples : session.options.observer.keepsExamples = false) {vs ws : Batch}
    (h : Batch.Reordered vs ws) :
    (vs = [] ∧ (session.addAll vs).1.document = .error .noSamples ∧
      (session.addAll ws).1.document = .error .noSamples) ∨
    ∃ document other, (session.addAll vs).1.document = .ok document ∧
      (session.addAll ws).1.document = .ok other ∧
      Respelled document.toValue other.toValue := by
  have hlength : vs.length = ws.length := h.length_eq
  by_cases hvs : vs = []
  · have hws : ws = [] := by
      rw [hvs] at hlength
      exact List.eq_nil_of_length_eq_zero hlength.symm
    rw [hvs, hws]
    have hnone := document_addAll_nil_of_start hstart
    exact .inl ⟨rfl, hnone, hnone⟩
  · have hws : ws ≠ [] := by
      intro hnil
      rw [hnil] at hlength
      exact hvs (List.eq_nil_of_length_eq_zero hlength)
    refine .inr ⟨_, _, document_addAll_of_start hstart hcap hvs,
      document_addAll_of_start hstart hcap hws, ?_⟩
    exact respelled_prescribe hexamples h session.options.version session.options.predefined

/-- One, as a binary number. -/
def one : Value :=
  .float (.finite false ⟨Nat.pow 2 52, 1022, by decide⟩)

def orderedSamples : Batch :=
  [.object [("n", .int 1), ("a", .list [.str "x", .bool true])], .object [("n", one)]]

/-- The same samples, turned at every depth: the number now comes first as a binary one. -/
def turnedSamples : Batch :=
  [.object [("n", one)], .object [("a", .list [.bool true, .str "x"]), ("n", .int 1)]]

theorem reordered_turnedSamples : Batch.Reordered orderedSamples turnedSamples := by
  have hlist : Value.Reordered (.list [.str "x", .bool true]) (.list [.bool true, .str "x"]) :=
    .list (List.forall₂_same.mpr fun v _ => .same v) (.swap _ _ _)
  have hfirst : Value.Reordered
      (.object [("n", .int 1), ("a", .list [.str "x", .bool true])])
      (.object [("a", .list [.bool true, .str "x"]), ("n", .int 1)]) :=
    .object (.cons (.member "n" (.same _)) (.cons (.member "a" hlist) .nil)) (.swap _ _ _)
  exact ⟨_, .cons hfirst (.cons (.same _) .nil), .swap _ _ _⟩

/-- A session in which one field is prescribed to be an array. -/
def arraySession : Session :=
  { options := ⟨[("a", "array")], .unlimited, ⟨false, []⟩, none, ""⟩ }

theorem document_addAll_turnedSamples :
    ∃ document other, (arraySession.addAll orderedSamples).1.document = .ok document ∧
      (arraySession.addAll turnedSamples).1.document = .ok other ∧
      Respelled document.toValue other.toValue := by
  have hstart : start { predefined := [(.str "a", .str "array")], knownFormats := .bool false
                        version := .null } = .ok arraySession := rfl
  have heither := document_addAll_reordered hstart rfl rfl reordered_turnedSamples
  exact heither.resolve_left fun hempty => List.cons_ne_nil _ _ hempty.1

end Session

end SampleSchema
