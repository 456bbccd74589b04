import SampleSchema.Proofs.Promotion
import SampleSchema.Proofs.Reassembly
/-!
# Fields that no sample touches

A document that is loaded is given out again, as long as no sample comes. After one sample it is
made anew, of the fields that the sample touches and of those that it does not. This module is about
the latter: what becomes of them is what the load made of them, whatever the sample brings
elsewhere.

* `Session.field_of_untouched`: they are the reloaded fields of the loaded document.
* `Document.Kept` says what a reloaded document has in common with the original at one position:
  the type, the constant and, where there is a single type, the format and the parts.
* `Session.everywhere_kept_of_text`: documents that were made of samples are kept at every position,
  after their texts were read back. A document that was loaded and given out again need not be.
* `Session.required_of_untouched_innerText`: the required names are not kept.
-/

namespace SampleSchema

theorem Value.primitiveType_plain (v : Value) : v.plain.primitiveType = v.primitiveType := by
  cases v with
  | bytes octets =>
    rcases plain_bytes octets with ⟨cs, -, hplain⟩ | ⟨fault, -, hplain⟩
    · rw [hplain]
      rfl
    · rw [hplain]
  | list items => rw [plain_list]; rfl
  | tuple items => rw [plain_tuple]; rfl
  | object members => rw [plain_object]; rfl
  | _ => rfl

namespace Document

/-! ## Documents that keep their types and constants -/

/-- What a document that is loaded keeps at its position, if no sample comes there. -/
structure Kept (document : Document) : Prop where
  type : document.reloaded.type = document.type
  constant : document.reloaded.constant = document.constant
  body : ∀ name, document.type = some (.str name) →
    document.reloaded.format = document.format ∧
      document.reloaded.items = document.items.map reloaded ∧
      document.reloaded.properties =
        document.properties.map fun field => (field.1, field.2.reloaded)

/-- The type keyword is written as it is made, the constant is a scalar, and beside a single type
stands nothing but the body of that type. -/
structure Regular (document : Document) : Prop where
  type : typeKeyword document.reloadedTypes = document.type
  constant : ∀ v ∈ document.constant, v.primitiveType.isScalar = true
  items : ∀ name, document.type = some (.str name) → document.items ≠ none → name = "array"
  properties : ∀ name, document.type = some (.str name) → document.properties ≠ [] →
    name = "object"
  format : ∀ name, document.type = some (.str name) → document.format ≠ none → name = "string"

theorem Reread.type_eq {test : Value → Bool} {document other : Document} (h : Reread document other)
    (hsound : document.Sound test) : other.type = document.type := by
  rw [h.type]
  cases hv : document.type with
  | none => rfl
  | some v => exact congrArg some (hsound.type v hv).plain_eq

theorem reloadedTypes_of_str {document : Document} {name : String}
    (h : document.type = some (.str name)) : document.reloadedTypes = [name] := by
  rw [reloadedTypes, loadedTypes, h]
  rfl

theorem Regular.kept {document : Document} (h : document.Regular) : document.Kept where
  type := by
    rw [reloaded_eq]
    exact h.type
  constant := by
    rw [reloaded_eq]
    show document.loadedConstant? = document.constant
    unfold loadedConstant?
    cases hconstant : document.constant with
    | none => rfl
    | some v => exact if_pos (h.constant v hconstant)
  body := by
    intro name hname
    have hkeeps : ∀ {α : Type} (part gone : α) (type : String), (part ≠ gone → name = type) →
        (if some name = some type then part else gone) = part := by
      intro α part gone type htype
      split
      · rfl
      · rename_i hne
        exact (not_not.mp fun hpart => hne (congrArg some (htype hpart))).symm
    rw [reloaded_eq, reloadedTypes_of_str hname, List.head?_cons]
    refine ⟨hkeeps _ _ _ (h.format name hname), hkeeps _ _ _ fun hitems => ?_,
      hkeeps _ _ _ fun hproperties => ?_⟩
    · exact h.items name hname (mt Option.map_eq_none_iff.mpr hitems)
    · exact h.properties name hname (mt List.map_eq_nil_iff.mpr hproperties)

/-! ## Documents that were made of samples -/

theorem pairwise_shownTypes {node : Node} (hnames : (Table.names node.types).Nodup) :
    (shownTypes node).Pairwise (· < ·) := by
  unfold shownTypes
  split
  · exact pairwise_lt_ascending (hnames.filter _)
  · rename_i hfew
    have hlength : (Table.names node.types).length ≤ 1 := by
      rw [Table.names, List.length_map]
      omega
    rcases eq_nil_or_singleton hlength with hnone | ⟨type, hone⟩
    · rw [hnone]
      exact .nil
    · rw [hone]
      exact List.pairwise_singleton _ type

theorem length_shownTypes_of_null {node : Node} (hnull : "null" ∈ shownTypes node) :
    (shownTypes node).length ≤ 1 := by
  unfold shownTypes at hnull ⊢
  split at hnull
  · exact absurd rfl (Node.mem_observedTypes.mp hnull).2
  · rename_i hfew
    rw [if_neg hfew, Table.names, List.length_map]
    omega

/-- The types that a node is shown to have are the ones that a load starts with. -/
theorem reloadedTypes_of_typeOf {document : Document} {node : Node}
    (htype : document.type = typeOf node) (hnames : (Table.names node.types).Nodup) :
    document.reloadedTypes = shownTypes node := by
  have hpairwise := pairwise_shownTypes hnames
  have hnodup : (shownTypes node).Nodup := hpairwise.imp String.ne_of_lt
  have hperm : (shownTypes node).eraseDups.Perm (shownTypes node) :=
    (List.perm_ext_iff_of_nodup (nodup_eraseDups _) hnodup).mpr fun _ => List.mem_eraseDups
  rw [typeOf_eq] at htype
  rw [reloadedTypes, loadedTypes_of_typeKeyword htype length_shownTypes_of_null,
    ascending_eq_of_perm hperm]
  exact ascending_of_pairwise (hpairwise.imp fun hlt => String.not_lt.mp (String.lt_asymm hlt))

/-- Every type but null is shown. -/
theorem mem_shownTypes {node : Node} {name : String} (h : name ∈ Table.names node.types)
    (hnull : name ≠ "null") : name ∈ shownTypes node := by
  unfold shownTypes
  split
  · exact Node.mem_observedTypes.mpr ⟨h, hnull⟩
  · exact h

/-- What is shown only for the most frequent type stands beside that type. -/
theorem mem_shownTypes_of_ne {α : Type} {node : Node} {type : String} {part gone : α}
    (hnull : type ≠ "null")
    (hshown : (if node.primaryType? = some type then part else gone) ≠ gone) :
    type ∈ shownTypes node := by
  split at hshown
  · rename_i hprimary
    exact mem_shownTypes (Node.mem_names_of_primaryType?_eq_some hprimary) hnull
  · exact absurd rfl hshown

/-- So it is the body of a single type. -/
theorem eq_of_shown_ne {α : Type} {node : Node} {name type : String} {part gone : α}
    (hname : typeOf node = some (.str name)) (hnull : type ≠ "null")
    (hshown : (if node.primaryType? = some type then part else gone) ≠ gone) : name = type := by
  have hmem := mem_shownTypes_of_ne hnull hshown
  rw [typeOf_eq, typeKeyword_eq_str_iff] at hname
  rw [hname] at hmem
  exact (List.mem_singleton.mp hmem).symm

theorem regular_ofObservations (version : Option Value) {node : Node} (hnode : node.Coherent)
    (items : Option Document) (properties : List (String × Document)) :
    (ofObservations version node items properties).Regular where
  type := by
    rw [reloadedTypes_of_typeOf rfl hnode.typeNames]
    exact (typeOf_eq node).symm
  constant := by
    intro v hv
    have hconstant : node.constant? = some v := hv
    unfold Node.constant? at hconstant
    split at hconstant
    · rename_i type value hcandidate
      obtain rfl := Option.some.inj hconstant
      obtain ⟨rfl, hscalar⟩ := hnode.constant type value hcandidate
      exact hscalar
    · exact nomatch hconstant
  items := fun _ hname hitems => eq_of_shown_ne hname (by decide) hitems
  properties := fun _ hname hproperties => eq_of_shown_ne hname (by decide) hproperties
  format := fun _ hname hformat => eq_of_shown_ne hname (by decide) hformat

theorem regular_ofOverride (version : Option Value) (override : String) (items : Option Document)
    (properties : List (String × Document)) :
    (ofOverride version override items properties).Regular := by
  have htypes : ∀ {document : Document} {name : String}, document.type = some (.str name) →
      typeKeyword document.reloadedTypes = document.type := by
    intro document name htype
    rw [reloadedTypes_of_str htype, htype]
    rfl
  unfold ofOverride
  split
  · refine ⟨htypes rfl, nofun, nofun, nofun, ?_⟩
    rintro _ ⟨⟩ -
    rfl
  · split
    · refine ⟨htypes rfl, nofun, ?_, nofun, nofun⟩
      rintro _ ⟨⟩ -
      rfl
    · split
      · refine ⟨htypes rfl, nofun, nofun, ?_, nofun⟩
        rintro _ ⟨⟩ -
        rfl
      · exact ⟨htypes rfl, nofun, nofun, nofun, nofun⟩

theorem regular_assemble (version : Option Value) {node : Node} (hnode : node.Coherent) :
    (assemble version node).Regular := by
  rw [assemble_eq]
  split
  · exact regular_ofOverride version _ _ _
  · exact regular_ofObservations version hnode _ _

/-- Nothing of this is lost when the value of a document is read back. -/
theorem Regular.reread {document other : Document} (hregular : document.Regular)
    {test : Value → Bool} (hsound : document.Sound test) (h : Reread document other) :
    other.Regular := by
  have htype := h.type_eq hsound
  have htypes : other.reloadedTypes = document.reloadedTypes := by
    rw [reloadedTypes, reloadedTypes, loadedTypes, loadedTypes, htype]
  constructor
  · rw [htypes, htype]
    exact hregular.type
  · intro v hv
    rw [h.constant] at hv
    obtain ⟨w, hw, rfl⟩ := Option.map_eq_some_iff.mp hv
    rw [Value.primitiveType_plain]
    exact hregular.constant w hw
  · intro name hname hsome
    exact hregular.items name (htype ▸ hname) (mt h.items_eq_none_iff.mpr hsome)
  · intro name hname hsome
    exact hregular.properties name (htype ▸ hname) (mt h.properties_eq_nil_iff.mpr hsome)
  · intro name hname hsome
    rw [h.format] at hsome
    exact hregular.format name (htype ▸ hname) (mt Option.map_eq_none_iff.mpr hsome)

/-! ## Fields beside a sample -/

/-- The root of a loaded document has the type object, and goes on having no other one. -/
theorem LoadsAs.primaryType?_observe {document : Document} {root : Node} (h : document.LoadsAs root)
    (htype : document.type = some (.str "object")) (observer : Observer)
    (members : List (String × Value)) :
    (root.observe observer (.object members)).primaryType? = some "object" := by
  have hobject : ∀ v ∈ [Value.object members], v.primitiveType = .object :=
    List.forall_mem_singleton.mpr rfl
  exact h.primaryType?_observeAll htype observer hobject

/-- A field that an object lacks, or has null for, is described as the load left it. -/
theorem get?_properties_of_untouched {document : Document} {root : Node} (h : document.LoadsAs root)
    (htype : document.type = some (.str "object")) {members : List (String × Value)} {name : String}
    (huntouched : ∀ w, (name, w) ∈ members → w = .null) {field : Document}
    (hfield : Table.get? name document.properties = some field) (observer : Observer)
    (version : Option Value) :
    Table.get? name (assemble version (root.observe observer (.object members))).properties =
      some field.reloaded := by
  obtain ⟨child, hchild, hloads⟩ := h.exists_child hfield
  have hnone : Batch.named name [.object members] = [] := by
    refine List.eq_nil_iff_forall_not_mem.mpr fun w hw => ?_
    obtain ⟨v, hv, hgiven⟩ := Batch.mem_named.mp hw
    obtain rfl := List.mem_singleton.mp hv
    obtain ⟨_, ⟨⟩, hmem, hne⟩ := Value.mem_givenMembers.mp hgiven
    exact hne (huntouched w hmem)
  have hget : Table.get? name (root.observe observer (.object members)).properties =
      some (child.observeAll observer (Batch.named name [.object members])) :=
    Node.get?_properties_observeAll_of_eq_some [.object members] hchild
  rw [hnone, Node.observeAll_nil] at hget
  have hoverride : (root.observe observer (.object members)).override = none := by
    rw [Node.override_observe]
    exact h.override_eq
  have hshown : (assemble version (root.observe observer (.object members))).properties =
      (root.observe observer (.object members)).properties.map fun child =>
        (child.1, assemble none child.2) := by
    rw [assemble_of_override_eq_none version hoverride]
    exact if_pos (h.primaryType?_observe htype observer members)
  rw [hshown, Table.get?_map fun _ => assemble none, hget, Option.map_some,
    assemble_of_loadsAs hloads]

end Document

namespace Session

/-! ## From the text of one session to the document of another -/

theorem everywhere_regular_document {options : Options} {calls : List Call}
    (hcalls : ∀ call ∈ calls, call.hasDistinctNames = true)
    (hsamples : (Recent.ofHistory (changes { options } calls)).samples ≠ []) {document : Document}
    (hdocument : (run { options } calls).1.document = .ok document) :
    document.Everywhere Document.Regular := by
  have hfollows := follows_ofHistory options calls
  have hcoherent := (coherent_run_of_coherent (coherent_fresh options) hcalls).tree
  rw [hfollows.document_eq, Recent.document_of_ne_nil options _ hsamples] at hdocument
  rw [hfollows.root_eq] at hcoherent
  obtain rfl := Except.ok.inj hdocument
  exact Document.everywhere_assemble_of (fun _ => Document.regular_assemble none) hcoherent
    (Document.regular_assemble options.version hcoherent.here)

/-- **Documents of samples are kept.** The text of a document that is not just given out again, as it
was loaded, is read as a document that keeps its types and constants at every position. -/
theorem everywhere_kept_of_text {settings : Settings} {origin : Session}
    (hstart : start settings = .ok origin) (hversion : settings.version.hasDistinctNames = true)
    (hindent : ∀ c ∈ origin.options.indent.toList, Json.isSpace c = true) {calls : List Call}
    (hcalls : ∀ call ∈ calls, call.hasDistinctNames = true)
    (hsamples : (Recent.ofHistory (origin.changes calls)).samples ≠ []) {text : String}
    (htext : (origin.run calls).1.text = .ok text) {v : Value} (hparse : parse text = .ok v)
    {document : Document} (hdocument : Document.ofValue v = .ok document) :
    document.Everywhere Document.Kept := by
  obtain ⟨shown, hshown, -⟩ := except_bind_eq_ok htext
  rw [parse_of_text hstart hversion hindent hcalls hshown htext] at hparse
  obtain rfl := Except.ok.inj hparse
  have hsound := sound_document_of_start hstart hversion hcalls hshown
  rw [start_eq hstart] at hsamples hshown
  have hregular := everywhere_regular_document hcalls hsamples hshown
  refine Document.everywhere_reread (fun written read hsound hregular hread => ?_) hsound hregular
    hdocument
  exact (hregular.reread hsound hread).kept

/-- The document that a load and one sample lead to. -/
theorem document_of_load_add {session : Session} {load add : Call} {v sample : Value}
    (hload : session.change? load = some (.document v))
    (hadd : (session.step load).1.change? add = some (.sample sample)) :
    ∃ root before, loadable v = .ok (root, before) ∧
      (session.run [load, add]).1.document =
        .ok (Document.assemble session.options.version
          (prescribe session.options.predefined (root.observe session.options.observer sample))) := by
  have hloaded := effect_step session load
  rw [hload] at hloaded
  show ∃ root before, _ ∧ ((session.step load).1.step add).1.document = _
  generalize session.step load = first at hloaded hadd ⊢
  cases hloaded with
  | @loaded _ root before _ _ hloadable =>
    have hadded := effect_step { session with root, count := 1, current := some before } add
    rw [hadd] at hadded
    generalize step { session with root, count := 1, current := some before } add = second
      at hadded ⊢
    cases hadded with
    | taken _ _ hopen =>
      refine ⟨root, before, hloadable, ?_⟩
      show (Session.add _ sample).1.document = _
      rw [add_of_not_isReached hopen]
      rfl

/-- **A field that a sample does not touch is what a load makes of it.** Take a session without
prescribed types, a call that loads a document, and one that then takes an object in as a sample. A
field of the loaded document that the object lacks, or has null for, is the reloaded field in the
document that is read afterwards. If the text that was loaded describes samples, the field is kept at
every depth: only the required names and the parts beside other types can differ. -/
theorem field_of_untouched {session : Session} (hpredefined : session.options.predefined = [])
    {load add : Call} {v : Value} {members : List (String × Value)}
    (hload : session.change? load = some (.document v))
    (hadd : (session.step load).1.change? add = some (.sample (.object members)))
    {before : Document} (hbefore : Document.ofValue v = .ok before) {name : String}
    (huntouched : ∀ w, (name, w) ∈ members → w = .null) {field : Document}
    (hfield : Table.get? name before.properties = some field) :
    (∃ after, (session.run [load, add]).1.document = .ok after ∧
      Table.get? name after.properties = some field.reloaded) ∧
    ∀ (settings : Settings) (origin : Session) (calls : List Call) (text : String),
      start settings = .ok origin → settings.version.hasDistinctNames = true →
      (∀ c ∈ origin.options.indent.toList, Json.isSpace c = true) →
      (∀ call ∈ calls, call.hasDistinctNames = true) →
      (Recent.ofHistory (origin.changes calls)).samples ≠ [] →
      (origin.run calls).1.text = .ok text → parse text = .ok v →
      field.Everywhere Document.Kept := by
  have hmem := Table.mem_of_get?_eq_some hfield
  constructor
  · obtain ⟨root, other, hloadable, hafter⟩ := document_of_load_add hload hadd
    obtain ⟨hobject, hroot, -⟩ := loadable_eq_ok_iff.mp hloadable
    rw [hpredefined, prescribe_nil] at hafter
    exact ⟨_, hafter, Document.get?_properties_of_untouched ⟨v, hroot, hbefore⟩
      (Document.type_of_object hbefore hobject) huntouched hfield _ _⟩
  · intro settings origin calls text hstart hversion hindent hcalls hsamples htext hparse
    have hkept :=
      everywhere_kept_of_text hstart hversion hindent hcalls hsamples htext hparse hbefore
    exact hkept.properties _ hmem

/-- Two samples with a field that has a member only once. -/
def innerCalls : List Call :=
  [.add (.object [("o", .object [("a", .int 1)])]), .add (.object [("o", .object [])])]

def innerText : String :=
  "\x7b\"type\":\"object\",\"properties\":\x7b\"o\":\x7b\"type\":\"object\"," ++
  "\"properties\":\x7b\"a\":\x7b\"type\":\"integer\",\"const\":1\x7d\x7d\x7d\x7d," ++
  "\"required\":[\"o\"]\x7d"

/-- The document of the field, where the member is not required. -/
def innerField : Document :=
  { type := some (.str "object")
    properties := [("a", { type := some (.str "integer"), constant := some (.int 1) })] }

def innerDocument : Value :=
  .object [("type", .str "object"),
    ("properties", .object [("o", .object [("type", .str "object"),
      ("properties", .object [("a", .object [("type", .str "integer"), ("const", .int 1)])])])]),
    ("required", .list [.str "o"])]

theorem start_bareOptions :
    start { knownFormats := .bool false, version := .null } = .ok { options := bareOptions } := rfl

set_option maxRecDepth 8000 in
theorem text_innerCalls : (run { options := bareOptions } innerCalls).1.text = .ok innerText := rfl

theorem parse_innerText : parse innerText = .ok innerDocument := by
  have hindent : ∀ c ∈ "".toList, Json.isSpace c = true := fun _ hc => absurd hc List.not_mem_nil
  obtain ⟨document, hdocument, -⟩ := except_bind_eq_ok text_innerCalls
  rw [parse_of_text start_bareOptions (by decide) hindent (by decide) hdocument text_innerCalls,
    ← Except.ok.inj hdocument]
  rfl

theorem field_of_untouched_innerText :
    (∃ after, (run { options := bareOptions } [.load (.str innerText),
        .add (.object [("o", .null), ("p", .int 1)])]).1.document = .ok after ∧
      Table.get? "o" after.properties = some { innerField with required := [.str "a"] }) ∧
    innerField.Everywhere Document.Kept := by
  have hload : change? { options := bareOptions } (.load (.str innerText)) =
      some (.document innerDocument) := by
    show (parse innerText).toOption.bind documentChange? = _
    rw [parse_innerText]
    rfl
  have hadd : (step { options := bareOptions } (.load (.str innerText))).1.change?
      (.add (.object [("o", .null), ("p", .int 1)])) =
        some (.sample (.object [("o", .null), ("p", .int 1)])) := by
    rw [step_load_text parse_innerText rfl]
    rfl
  have huntouched : ∀ w, ("o", w) ∈ [("o", Value.null), ("p", .int 1)] → w = .null := by simp
  have hfield := @field_of_untouched { options := bareOptions } rfl _ _ _ _ hload hadd
    _ rfl "o" huntouched innerField rfl
  refine ⟨hfield.1, hfield.2 _ _ innerCalls innerText start_bareOptions (by decide) ?_ (by decide)
    nofun text_innerCalls parse_innerText⟩
  exact fun _ hc => absurd hc List.not_mem_nil

/-- A member that one sample lacked is required after its text was loaded, though no later sample
touched its parent. -/
theorem required_of_untouched_innerText :
    ∃ before after field field',
      (run { options := bareOptions } innerCalls).1.text = .ok innerText ∧
      (run { options := bareOptions } innerCalls).1.document = .ok before ∧
      (run { options := bareOptions } [.load (.str innerText), .add (.object [])]).1.document =
        .ok after ∧
      before.type = some (.str "object") ∧ Table.get? "o" before.properties = some field ∧
      Table.get? "o" after.properties = some field' ∧
      .str "a" ∉ field.required ∧ .str "a" ∈ field'.required := by
  rw [run_cons, step_load_text parse_innerText rfl, ← run_cons]
  exact ⟨_, _, _, _, text_innerCalls, rfl, rfl, rfl, rfl, rfl, List.not_mem_nil, List.mem_cons_self⟩

end Session

end SampleSchema
