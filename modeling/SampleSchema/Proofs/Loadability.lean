import SampleSchema.Proofs.HistoryHoldings
import SampleSchema.Proofs.Rereading
/-!
# Which documents can be loaded

A load makes two things of one value: a node, with checks on the way, and a document, with next to
none. This module says for which values it succeeds, and that it succeeds or fails as a whole.

* `Value.HasSubschema` is what a value reaches along items and properties, and `Value.IsMisshapen`
  what may not be reached. Both look at values only, at no node and no document.
* `Node.exists_ofOutline_iff`: a node can be made exactly if nothing misshapen is reached.
* `Document.exists_of_node`: then a document can be made, too. So the second step of a load never
  fails, and brings no reason of its own.
* `Session.step_load_iff`: a load is refused for its root, refused for what the root reaches, or
  done, and a refused load leaves the session alone.
-/

namespace SampleSchema

/-- The errors of a value that is no schema, or reaches one that is none. -/
def Error.isMalformedSchema : Error → Bool
  | .notSchemaObject _ | .badType _ | .propertiesNotObject => true
  | _ => false

/-! ## Values that are reached -/

namespace Value

/-- The root of a document that can be loaded is an object, and has the type object and no other. -/
def IsObjectSchema (v : Value) : Prop :=
  ∃ members, v = .object members ∧ member "type" members = .str "object"

/-- What a value reaches as a schema: itself, and all that its items, unless they are null, and the
members of its properties reach. -/
inductive HasSubschema : Value → Value → Prop where
  | here (v : Value) : HasSubschema v v
  | items {members : List (String × Value)} {w : Value} (hne : member "items" members ≠ .null)
      (hbelow : HasSubschema (member "items" members) w) : HasSubschema (.object members) w
  | property {members fields : List (String × Value)} {field : String × Value} {w : Value}
      (hfields : member "properties" members = .object fields) (hfield : field ∈ fields)
      (hbelow : HasSubschema field.2 w) : HasSubschema (.object members) w

/-- A value that is no schema, whatever it reaches: it is no object, its type is there but neither a
name nor a list of names, or its properties are there but no object. -/
inductive IsMisshapen : Value → Prop where
  | stray {v : Value} (hstray : v.members? = none) : IsMisshapen v
  | type {members : List (String × Value)} (hne : member "type" members ≠ .null)
      (htypes : ¬ (member "type" members).IsTypes) : IsMisshapen (.object members)
  | properties {members : List (String × Value)} (hne : member "properties" members ≠ .null)
      (hstray : (member "properties" members).members? = none) : IsMisshapen (.object members)

end Value

/-! ## From values to nodes -/

namespace Node

theorem loadedTypes_eq_error {v : Value} {error : Error} (h : loadedTypes v = .error error) :
    error.isMalformedSchema = true ∧ v ≠ .null ∧ ¬ v.IsTypes := by
  have hrefused : ¬ v.IsTypes := by
    intro hv
    obtain ⟨types, htypes⟩ := Document.exists_loadedTypes hv
    rw [htypes] at h
    exact nomatch h
  have hne : v ≠ .null := by
    rintro rfl
    exact nomatch h
  refine ⟨?_, hne, hrefused⟩
  unfold loadedTypes at h
  split at h
  · exact nomatch h
  · exact nomatch h
  · split at h
    · split at h <;> exact nomatch h
    · rw [← Except.error.inj h]
      rfl
  · rw [← Except.error.inj h]
    rfl

variable {v : Value} {samples : Nat}

/-- If no node can be made of a value, the value reaches a misshapen one, and the error says so. -/
theorem exists_isMisshapen_of_ofOutline {error : Error}
    (h : ofOutline samples (.ofValue v) = .error error) :
    error.isMalformedSchema = true ∧ ∃ w, v.HasSubschema w ∧ w.IsMisshapen := by
  induction v using Value.schemaInduction generalizing samples with
  | stray v hstray =>
    refine ⟨?_, v, .here v, .stray hstray⟩
    cases v with
    | object members => exact nomatch hstray
    | _ =>
      rw [← Except.error.inj h]
      rfl
  | schema members ihItems ihProperties =>
    rw [ofOutline_object] at h
    rcases except_bind_eq_error h with htypes | ⟨types, -, h⟩
    · obtain ⟨herror, hne, hnames⟩ := loadedTypes_eq_error htypes
      exact ⟨herror, _, .here _, .type hne hnames⟩
    rcases except_bind_eq_error h with hitem | ⟨item, -, h⟩
    · obtain ⟨hne, hbelow⟩ := partOf_eq_error hitem
      obtain ⟨herror, w, hreached, hw⟩ := ihItems _ (Value.mem_of_member_eq rfl hne) hbelow
      exact ⟨herror, w, .items hne hreached, hw⟩
    rcases except_bind_eq_error h with hchildren | ⟨children, -, hlast⟩
    · rcases partsOf_eq_error hchildren with
        ⟨hne, hstray, rfl⟩ | ⟨fields, hfields, field, hfield, hbelow⟩
      · exact ⟨rfl, _, .here _, .properties hne hstray⟩
      · obtain ⟨herror, w, hreached, hw⟩ :=
          ihProperties fields (Value.mem_of_member_eq hfields nofun) field hfield hbelow
        exact ⟨herror, w, .property hfields hfield hreached, hw⟩
    · exact nomatch hlast

/-- If a node can be made of a value, nothing that the value reaches is misshapen. -/
theorem not_isMisshapen_of_ofOutline {node : Node} (h : ofOutline samples (.ofValue v) = .ok node)
    {w : Value} (hw : v.HasSubschema w) : ¬ w.IsMisshapen := by
  induction hw generalizing samples node with
  | here v =>
    intro hmisshapen
    cases hmisshapen with
    | stray hstray =>
      cases v with
      | object members => exact nomatch hstray
      | _ => exact nomatch h
    | type hne htypes =>
      rw [ofOutline_object] at h
      obtain ⟨types, hnames, -⟩ := except_bind_eq_ok h
      exact htypes (isTypes_of_loadedTypes hnames hne)
    | properties hne hstray =>
      rw [ofOutline_object] at h
      obtain ⟨types, -, h⟩ := except_bind_eq_ok h
      obtain ⟨item, -, h⟩ := except_bind_eq_ok h
      obtain ⟨children, hchildren, -⟩ := except_bind_eq_ok h
      rcases partsOf_eq_ok hchildren with ⟨hnull, -⟩ | ⟨fields, hfields, -⟩
      · exact hne hnull
      · rw [hfields] at hstray
        exact nomatch hstray
  | items hne _ ih =>
    rw [ofOutline_object] at h
    obtain ⟨types, -, h⟩ := except_bind_eq_ok h
    obtain ⟨item, hitem, -⟩ := except_bind_eq_ok h
    rcases partOf_eq_ok hitem with ⟨hnull, -⟩ | ⟨-, below, hbelow, -⟩
    · exact absurd hnull hne
    · exact ih hbelow
  | property hfields hfield _ ih =>
    rw [ofOutline_object] at h
    obtain ⟨types, -, h⟩ := except_bind_eq_ok h
    obtain ⟨item, -, h⟩ := except_bind_eq_ok h
    obtain ⟨children, hchildren, -⟩ := except_bind_eq_ok h
    rw [hfields] at hchildren
    obtain ⟨below, hbelow⟩ := exists_of_partsOf hchildren _ hfield
    exact ih hbelow

/-- **A node can be made of a value exactly if nothing that the value reaches is misshapen.** -/
theorem exists_ofOutline_iff :
    (∃ node, ofOutline samples (.ofValue v) = .ok node) ↔
      ∀ w, v.HasSubschema w → ¬ w.IsMisshapen := by
  constructor
  · rintro ⟨node, hnode⟩ w hw
    exact not_isMisshapen_of_ofOutline hnode hw
  · intro hshapely
    cases hnode : ofOutline samples (.ofValue v) with
    | ok node => exact ⟨node, rfl⟩
    | error error =>
      obtain ⟨-, w, hw, hmisshapen⟩ := exists_isMisshapen_of_ofOutline hnode
      exact absurd hmisshapen (hshapely w hw)

end Node

/-! ## From nodes to documents -/

/-- What a node can be made from, a document can be made from, too: both want objects at the same
places, and the node wants more of them. -/
theorem Document.exists_of_node {v : Value} {samples : Nat} {node : Node}
    (h : Node.ofOutline samples (.ofValue v) = .ok node) :
    ∃ document, ofValue v = .ok document := by
  induction v using Value.schemaInduction generalizing samples node with
  | stray v hstray =>
    cases v with
    | object members => exact nomatch hstray
    | _ => exact nomatch h
  | schema members ihItems ihProperties =>
    rw [Node.ofOutline_object] at h
    obtain ⟨types, -, h⟩ := except_bind_eq_ok h
    obtain ⟨item, hitem, h⟩ := except_bind_eq_ok h
    obtain ⟨children, hchildren, -⟩ := except_bind_eq_ok h
    obtain ⟨items, hitems⟩ : ∃ items, partOf ofValue (Value.member "items" members) = .ok items :=
      exists_partOf_of_partOf hitem fun hne below hbelow =>
        ihItems _ (Value.mem_of_member_eq rfl hne) hbelow
    obtain ⟨properties, hproperties⟩ : ∃ properties, partsOf (fun _ v => ofValue v)
        (.notDocument (Value.member "properties" members)) (Value.member "properties" members) =
          .ok properties :=
      exists_partsOf_of_partsOf _ hchildren fun fields hfields field hfield below hbelow =>
        ihProperties fields (Value.mem_of_member_eq hfields nofun) field hfield hbelow
    rw [ofValue_object, hproperties, except_ok_bind, hitems, except_ok_bind]
    exact ⟨_, rfl⟩

/-! ## Loading -/

namespace Session

/-- What comes of a value that is to be loaded: it is refused for its root, or for what it reaches,
or a node and a document are made of it. -/
inductive Loading (v : Value) : Except Error (Node × Document) → Prop where
  | otherRoot (type : Value) (hroot : ¬ v.IsObjectSchema) : Loading v (.error (.rootNotObject type))
  | malformed {error : Error} {w : Value} (hroot : v.IsObjectSchema)
      (herror : error.isMalformedSchema = true) (hw : v.HasSubschema w)
      (hmisshapen : w.IsMisshapen) : Loading v (.error error)
  | done {root : Node} {document : Document} (hroot : v.IsObjectSchema)
      (hshapely : ∀ w, v.HasSubschema w → ¬ w.IsMisshapen)
      (hnode : Node.ofOutline 1 (.ofValue v) = .ok root)
      (hdocument : Document.ofValue v = .ok document) : Loading v (.ok (root, document))

theorem loading_loadable (v : Value) : Loading v (loadable v) := by
  by_cases hroot : v.IsObjectSchema
  · rw [loadable_of_object hroot]
    cases hnode : Node.ofOutline 1 (.ofValue v) with
    | error error =>
      obtain ⟨herror, w, hw, hmisshapen⟩ := Node.exists_isMisshapen_of_ofOutline hnode
      exact .malformed hroot herror hw hmisshapen
    | ok root =>
      -- the document is there, as the node is
      obtain ⟨document, hdocument⟩ := Document.exists_of_node hnode
      rw [hdocument]
      exact .done hroot (Node.exists_ofOutline_iff.mp ⟨root, hnode⟩) hnode hdocument
  · obtain ⟨type, hrefused⟩ := exists_loadable_eq_error hroot
    rw [hrefused]
    exact .otherRoot type hroot

/-- Only a string is read first. -/
theorem given_of_ne_string {v : Value} (hv : v.primitiveType ≠ .string) : given v = .ok v := by
  cases v with
  | str text => exact absurd rfl hv
  | bytes octets => exact absurd rfl hv
  | _ => rfl

theorem step_load_of_ne_string (session : Session) {v : Value} (hv : v.primitiveType ≠ .string) :
    session.step (.load v) =
      match loadable v with
      | .ok (root, document) =>
        ({ session with root, count := 1, current := some document },
          .ok (.done, [.documentLoaded root.properties.length]))
      | .error error => (session, .error error) := by
  rw [step_load_eq, given_of_ne_string hv, except_ok_bind, loadValue]
  cases loadable v with
  | ok loaded => rfl
  | error error => rfl

/-- **What can be loaded.** The load of a value that is no string, in any state of a session, has
one of three outcomes. It is refused for its root exactly if the value is no object schema. An
object schema is refused as malformed exactly if something that it reaches is misshapen, and is
loaded otherwise, so that the document can always be made where the node can. A load that is refused
leaves the session exactly as it was. -/
theorem step_load_iff (session : Session) {v : Value} (hv : v.primitiveType ≠ .string) :
    let outcome := session.step (.load v)
    ((∃ type, outcome.2 = .error (.rootNotObject type)) ↔ ¬ v.IsObjectSchema) ∧
    (v.IsObjectSchema →
      ((∃ error, outcome.2 = .error error ∧ error.isMalformedSchema = true) ↔
        ∃ w, v.HasSubschema w ∧ w.IsMisshapen)) ∧
    (v.IsObjectSchema → (∀ w, v.HasSubschema w → ¬ w.IsMisshapen) →
      ∃ root document, Node.ofOutline 1 (.ofValue v) = .ok root ∧
        Document.ofValue v = .ok document ∧
        outcome = ({ session with root, count := 1, current := some document },
          .ok (.done, [.documentLoaded root.properties.length]))) ∧
    (∀ samples root, Node.ofOutline samples (.ofValue v) = .ok root →
      ∃ document, Document.ofValue v = .ok document) ∧
    ∀ error, outcome.2 = .error error → outcome.1 = session := by
  have houtcome := step_load_of_ne_string session hv
  have hloading := loading_loadable v
  generalize loadable v = result at houtcome hloading
  rw [houtcome]
  cases hloading with
  | otherRoot type hroot =>
    refine ⟨iff_of_true ⟨type, rfl⟩ hroot, fun hobject => absurd hobject hroot,
      fun hobject => absurd hobject hroot, fun _ _ => Document.exists_of_node, fun _ _ => rfl⟩
  | malformed hroot herror hw hmisshapen =>
    refine ⟨iff_of_false ?_ (not_not.mpr hroot),
      fun _ => iff_of_true ⟨_, rfl, herror⟩ ⟨_, hw, hmisshapen⟩,
      fun _ hshapely => absurd hmisshapen (hshapely _ hw), fun _ _ => Document.exists_of_node,
      fun _ _ => rfl⟩
    -- an error of the root is of another kind
    rintro ⟨type, htype⟩
    rw [Except.error.inj htype] at herror
    exact nomatch herror
  | done hroot hshapely hnode hdocument =>
    refine ⟨iff_of_false nofun (not_not.mpr hroot), fun _ => iff_of_false nofun ?_,
      fun _ _ => ⟨_, _, hnode, hdocument, rfl⟩, fun _ _ => Document.exists_of_node, nofun⟩
    rintro ⟨w, hw, hmisshapen⟩
    exact hshapely w hw hmisshapen

/-- An object schema with an array of values whose types are a name and a number. -/
def misnamedDocument : Value :=
  .object [("type", .str "object"),
    ("properties", .object [("rows", .object [("type", .str "array"),
      ("items", .object [("type", .list [.str "string", .int 2])])])])]

/-- A session that has taken a sample in. -/
def begunSession : Session :=
  (add { options := ⟨[], .unlimited, ⟨false, []⟩, none, ""⟩ } (.object [("a", .int 1)])).1

theorem step_load_misnamedDocument :
    misnamedDocument.primitiveType ≠ .string ∧ misnamedDocument.IsObjectSchema ∧
      (∃ error, (begunSession.step (.load misnamedDocument)).2 = .error error ∧
        error.isMalformedSchema = true) ∧
      (begunSession.step (.load misnamedDocument)).1 = begunSession := by
  have hv : misnamedDocument.primitiveType ≠ .string := by decide
  have hroot : misnamedDocument.IsObjectSchema := ⟨_, rfl, rfl⟩
  have hunnamed : ¬ Value.IsTypes (.list [.str "string", .int 2]) := by
    rintro (⟨name, hname⟩ | ⟨names, hnames⟩)
    · exact nomatch hname
    · -- the second entry of the list is no name
      have hmem : Value.int 2 ∈ names.map .str := by
        rw [← Value.list.inj hnames]
        exact List.mem_cons_of_mem _ List.mem_cons_self
      obtain ⟨name, -, hname⟩ := List.mem_map.mp hmem
      exact nomatch hname
  have hreached : ∃ w, misnamedDocument.HasSubschema w ∧ w.IsMisshapen :=
    ⟨_, .property rfl List.mem_cons_self (.items nofun (.here _)), .type nofun hunnamed⟩
  obtain ⟨-, hmalformed, -, -, hunchanged⟩ := step_load_iff begunSession hv
  obtain ⟨error, herror, hkind⟩ := (hmalformed hroot).mpr hreached
  exact ⟨hv, hroot, ⟨error, herror, hkind⟩, hunchanged error herror⟩

end Session

end SampleSchema
