import SampleSchema.Proofs.Required
/-!
# Samples validate against what was inferred from them

`Validates` says what it means that a value fits a document, by the keywords that an inferred
document uses: type, required, properties, items and format. The constant is left aside.

`validates_assemble` says that no value is ever rejected by a document that it had a part in,
whatever came before or after it. Most of a document describes the primary type only, so a value
of another type has nothing to fear but the type keyword. A value of the primary type meets its
own parts again, as parts of the batches that the sub-schemas were made from; this is the
induction.
-/

namespace SampleSchema

/-- The type goes by this name in a schema. An integer is a number, too. -/
def PrimitiveType.IsNamed (name : String) (type : PrimitiveType) : Prop :=
  name = type.name ∨ name = "number" ∧ type = .integer

/-- What a type keyword admits: everything if it is missing, the type that it names, or any
type of its list. -/
def PrimitiveType.IsAdmitted (keyword : Option Value) (type : PrimitiveType) : Prop :=
  match keyword with
  | none => True
  | some (.str name) => type.IsNamed name
  | some (.list names) => ∃ name, Value.str name ∈ names ∧ type.IsNamed name
  | some _ => False

/-- The value fits the document, at every depth. A format is met by a detector of that name. -/
inductive Validates (detectors : List Detector) : Document → Value → Prop where
  | intro {document : Document} {v : Value}
      (type : v.primitiveType.IsAdmitted document.type)
      (required : ∀ members, v = .object members → ∀ entry ∈ document.required,
        ∃ name, entry = .str name ∧ name ∈ Table.names members)
      (properties : ∀ members, v = .object members → ∀ name w, (name, w) ∈ members →
        ∀ child, Table.get? name document.properties = some child → Validates detectors child w)
      (items : ∀ w ∈ v.elements, ∀ child, document.items = some child →
        Validates detectors child w)
      (format : v.primitiveType = .string → ∀ name, document.format = some name →
        ∃ detector ∈ detectors, detector.name = name ∧ detector.accepts v.plainText = true) :
      Validates detectors document v

/-! ## The keywords one by one -/

namespace Document

theorem isAdmitted_typeOf {node : Node} {type : PrimitiveType}
    (hmem : type.name ∈ Table.names node.types) (hne : type ≠ .null) :
    type.IsAdmitted (typeOf node) := by
  have hname : type.name ≠ "null" := by
    cases type with
    | null => exact absurd rfl hne
    | _ => decide
  have hobserved : type.name ∈ node.observedTypes := Node.mem_observedTypes.mpr ⟨hmem, hname⟩
  unfold typeOf
  split
  · split
    · rename_i hnone
      rw [hnone] at hobserved
      simp at hobserved
    · rename_i only hone
      rw [hone, List.mem_singleton] at hobserved
      exact .inl hobserved.symm
    · exact ⟨type.name, List.mem_map.mpr ⟨type.name, hobserved, rfl⟩, .inl rfl⟩
  · -- a single count, and so that of this type
    rename_i hshort
    obtain ⟨⟨name, count⟩, rest, htypes⟩ :=
      List.exists_cons_of_ne_nil (List.ne_nil_of_mem (List.mem_map.mp hmem).choose_spec.1)
    obtain rfl : rest = [] := by
      rw [htypes, List.length_cons] at hshort
      exact List.eq_nil_of_length_eq_zero (by omega)
    have hprimary : node.primaryType? = some name := by
      rw [Node.primaryType?, htypes]
      rfl
    rw [hprimary]
    rw [htypes] at hmem
    exact .inl (List.mem_singleton.mp hmem).symm

variable {observer : Observer} {version : Option Value} {vs : Batch} {v : Value}

theorem isAdmitted_type_ofBatch (hv : v ∈ vs) (hne : v ≠ .null) :
    v.primitiveType.IsAdmitted (ofBatch observer version vs).type := by
  have hmem : v.primitiveType.name ∈ Table.names (Node.observeAll observer vs {}).types := by
    rw [Node.names_types_observeAll_fresh, List.mem_eraseDups]
    exact List.mem_map.mpr ⟨v, hv, rfl⟩
  have htype : v.primitiveType ≠ .null := by
    cases v with
    | null => exact absurd rfl hne
    | float x =>
      simp only [Value.primitiveType]
      split <;> decide
    | _ => simp [Value.primitiveType]
  rw [ofBatch_eq]
  exact isAdmitted_typeOf hmem htype

theorem mem_required_ofBatch {entry : Value} (hvs : vs ≠ [])
    (hd : ∀ v ∈ vs, v.hasDistinctNames = true)
    (h : entry ∈ (ofBatch observer version vs).required) :
    ∃ name, entry = .str name ∧ ∀ v ∈ vs, v.Bears name := by
  rw [ofBatch_eq] at h
  simp only [ofObservations] at h
  split at h
  · obtain ⟨name, hname, rfl⟩ := List.mem_map.mp h
    exact ⟨name, rfl, (Node.mem_required_iff hvs hd).mp hname⟩
  · simp at h

theorem accepts_of_format_ofBatch {name : Value} (hv : v ∈ vs)
    (hstring : v.primitiveType = .string)
    (h : (ofBatch observer version vs).format = some name) :
    ∃ detector ∈ observer.detectors,
      detector.name = name ∧ detector.accepts v.plainText = true := by
  have htext : v.plainText ∈ vs.texts :=
    List.mem_map.mpr ⟨v, List.mem_filter.mpr ⟨hv, decide_eq_true hstring⟩, rfl⟩
  -- the formats that are left accept every text of the batch, and so this one
  have hformats := Node.formats_observeAll observer vs {}
  rw [if_neg (List.ne_nil_of_mem htext)] at hformats
  rw [ofBatch_eq] at h
  simp only [ofObservations] at h
  split at h
  · rw [Node.format?, hformats] at h
    obtain ⟨shown, hhead, hshown⟩ := Option.bind_eq_some_iff.mp h
    obtain ⟨detector, hdetector, rfl⟩ := Option.map_eq_some_iff.mp hhead
    obtain ⟨hmem, hall⟩ := List.mem_filter.mp (List.mem_of_mem_head? hdetector)
    refine ⟨detector, hmem, ?_, List.all_eq_true.mp hall _ htext⟩
    rw [Value.truthy?] at hshown
    split at hshown
    · exact Option.some.inj hshown
    · simp at hshown
  · simp at h

/-! ## Soundness -/

/-- **No sample is rejected.** Every value of a batch without nulls, at any depth, validates
against the document that fresh observation of the batch leads to, in whatever order. -/
theorem validates_assemble (observer : Observer) (version : Option Value) (vs : Batch)
    (hd : ∀ v ∈ vs, v.hasDistinctNames = true) (hn : ∀ v ∈ vs, v.isNullFree = true) :
    ∀ v ∈ vs, Validates observer.detectors
      (assemble version (Node.observeAll observer vs {})) v := by
  show ∀ v ∈ vs, Validates observer.detectors (ofBatch observer version vs) v
  induction vs using Batch.induction generalizing version with
  | step vs ihelements ihnamed =>
    intro v hv
    have hne : v ≠ .null := by
      intro hnull
      rw [hnull] at hv
      exact absurd (hn .null hv) (by decide)
    -- the type is admitted because it was counted; the rest is up to the batches of the parts
    refine .intro (isAdmitted_type_ofBatch hv hne) ?_ ?_ ?_ fun hstring name hformat =>
      accepts_of_format_ofBatch hv hstring hformat
    · rintro members rfl entry hentry
      obtain ⟨name, rfl, hbears⟩ := mem_required_ofBatch (List.ne_nil_of_mem hv) hd hentry
      obtain ⟨others, w, heq, hget, -⟩ := hbears _ hv
      obtain rfl := Value.object.inj heq
      exact ⟨name, rfl, Table.isSome_get?_iff.mp (by rw [hget]; rfl)⟩
    · rintro members rfl name w hmem child hchild
      obtain ⟨hfield, rfl⟩ := eq_of_get?_properties_ofBatch observer version vs hchild
      -- the member is not null, so it is one of those that its sub-schema was made from
      have hw : w ≠ .null := by
        intro heq
        rw [heq] at hmem
        have hnull := hn _ hv
        rw [Value.isNullFree, Value.everywhere, Bool.and_eq_true,
          Value.membersEverywhere_eq_all, List.all_eq_true] at hnull
        exact Bool.false_ne_true (hnull.2 (name, .null) hmem)
      have hreached : w ∈ vs.named name :=
        Batch.mem_named.mpr ⟨_, hv, Value.mem_givenMembers.mpr ⟨members, rfl, hmem, hw⟩⟩
      exact ihnamed name hfield none (Batch.everywhere_named name hd)
        (Batch.everywhere_named name hn) w hreached
    · intro w hw child hchild
      obtain ⟨harray, rfl⟩ := eq_of_items_ofBatch observer version vs hchild
      exact ihelements harray none (Batch.everywhere_elements hd) (Batch.everywhere_elements hn) w
        (Batch.mem_elements.mpr ⟨v, hv, hw⟩)

/-- Objects and texts at one position, and an array inside. -/
def mixedSamples : Batch :=
  [.object [("a", .list [.int 1, .str "x"])], .str "yes", .object [("a", .bool true)],
   .str "yes!"]

/-- An observer with one detector, of texts that begin with yes. -/
def yesObserver : Observer :=
  ⟨false, [⟨.str "affirmative", fun text => "yes".isPrefixOf text⟩]⟩

theorem validates_assemble_mixedSamples :
    Value.str "yes!" ∈ mixedSamples ∧
      Validates yesObserver.detectors
        (assemble none (Node.observeAll yesObserver mixedSamples {})) (.str "yes!") := by
  have hd : ∀ v ∈ mixedSamples, v.hasDistinctNames = true := by decide
  have hn : ∀ v ∈ mixedSamples, v.isNullFree = true := by decide
  have hmem : Value.str "yes!" ∈ mixedSamples := by
    unfold mixedSamples
    simp
  exact ⟨hmem, validates_assemble yesObserver none mixedSamples hd hn _ hmem⟩

end Document

end SampleSchema
