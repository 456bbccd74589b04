import Mathlib.Tactic.MkIffOfInductiveProp
import SampleSchema.Proofs.Descent
import SampleSchema.Proofs.Rereading
/-!
# The normal form of a value

A value that is read as a document and written again is in normal form: keywords that say nothing
are gone, the others stand in a fixed order, and the properties ascend. Reading and writing are two
recursions with a rule for each of nine keywords, and this module says that the rules agree.

* `Document.ofValue_eq_ok_iff` lists what is read from each keyword.
* `Document.exists_ofValue_toValue`: a normal form is read as a document that is written in the same
  way.
* `Value.IsKept` is the rule for each keyword, and `Value.Normalizes` compares a schema with its
  normal form, apart from what is below them.
* `Document.rel_sub?_of_ofValue` and `Document.sub?_toValue` go from the first value to the document
  and from there to the second one, position by position.
-/

namespace SampleSchema

/-! ## Sorted tables -/

namespace Table

variable {α : Type}

/-- An entry is put in before the others of its name, so it is found first, as it was. -/
theorem get?_insertAscending (name : String) (entry : String × α) (table : Table α) :
    get? name (insertAscending (·.1) entry table) =
      if entry.1 = name then some entry.2 else table.get? name := by
  induction table with
  | nil => rfl
  | cons first rest ih =>
    rw [insertAscending]
    split
    · rfl
    · rename_i hbehind
      rw [get?, ih, get?]
      by_cases hfirst : first.1 = name
      · -- the entry has another name, or it would stand in front
        have hne : entry.1 ≠ name := by
          rintro rfl
          exact hbehind (hfirst ▸ String.le_refl _)
        rw [if_pos hfirst, if_neg hne, if_pos hfirst]
      · rw [if_neg hfirst, if_neg hfirst]

theorem get?_ascending (name : String) (table : Table α) :
    get? name (ascending (·.1) table) = table.get? name := by
  induction table with
  | nil => rfl
  | cons first rest ih => rw [ascending, get?_insertAscending, ih, get?]

theorem eq_nil_iff_of_names_eq {β : Type} {table : Table α} {other : Table β}
    (h : table.names = other.names) : table = [] ↔ other = [] := by
  have hnames : table.names = [] ↔ other.names = [] := by rw [h]
  rwa [names, names, List.map_eq_nil_iff, List.map_eq_nil_iff] at hnames

end Table

/-! ## Values as schemas -/

namespace Value

/-- Whether a keyword says something with this value, so that a document keeps it. -/
@[mk_iff]
inductive IsKept : String → Value → Prop where
  | nonNull {name : String} {v : Value}
      (hname : name ∈ ["type", "items", "const", "example", "additionalProperties"])
      (hv : v ≠ .null) : IsKept name v
  | truthy {name : String} {v : Value} (hname : name ∈ ["$schema", "format"])
      (hv : v.truthy = true) : IsKept name v
  | properties {fields : List (String × Value)} (hne : fields ≠ []) :
      IsKept "properties" (.object fields)
  | required {items : List Value} (hne : items ≠ []) : IsKept "required" (.list items)

/-- A schema and its normal form, apart from what is below them. The normal form has the keywords
that are kept, in their order, and with their values. Its properties have the same names, which
ascend. -/
inductive Normalizes : Value → Value → Prop where
  | intro {members shown : List (String × Value)}
      (horder : (Table.names shown).Sublist Document.keywordNames)
      (hkept : ∀ name, name ∈ Table.names shown ↔ IsKept name (member name members))
      (hvalue : ∀ name ∈ Table.names shown, name ≠ "properties" → name ≠ "items" →
        member name shown = member name members)
      (hfields : ∀ fields, member "properties" members = .object fields → fields ≠ [] →
        ∃ listed, member "properties" shown = .object listed ∧
          (Table.names listed).Perm (Table.names fields) ∧
          (Table.names listed).Pairwise (· ≤ ·)) :
      Normalizes (.object members) (.object shown)

/-- The items of a schema. -/
def items? (v : Value) : Option Value := do
  (member "items" (← v.members?)).nonNull?

/-- A property of a schema. -/
def property? (name : String) (v : Value) : Option Value := do
  Table.get? name (← (member "properties" (← v.members?)).members?)

/-- The sub-schema of a value at a position. -/
def sub? : Position → Value → Option Value
  | [], v => some v
  | none :: rest, v => v.items?.bind (sub? rest)
  | some name :: rest, v => (v.property? name).bind (sub? rest)

theorem items?_object (members : List (String × Value)) :
    items? (.object members) = (member "items" members).nonNull? := rfl

theorem property?_object (name : String) (members : List (String × Value)) :
    property? name (.object members) =
      (member "properties" members).members?.bind (Table.get? name) := rfl

theorem nonNull?_idem (v : Value) : (v.nonNull?.getD .null).nonNull? = v.nonNull? := by
  cases v <;> rfl

theorem truthy?_idem (v : Value) : (v.truthy?.getD .null).truthy? = v.truthy? := by
  cases h : v.truthy? with
  | none => rfl
  | some w => exact truthy?_eq_some_iff.mpr ⟨rfl, (truthy?_eq_some_iff.mp h).2⟩

end Value

namespace Document

/-! ## Reading -/

/-- What a document has from the members of an object. -/
structure IsReadFrom (members : List (String × Value)) (document : Document) : Prop where
  version : document.version = (Value.member "$schema" members).truthy?
  type : document.type = (Value.member "type" members).nonNull?
  properties : partsOf (fun _ v => ofValue v) (.notDocument (Value.member "properties" members))
    (Value.member "properties" members) = .ok document.properties
  items : partOf ofValue (Value.member "items" members) = .ok document.items
  required : document.required = listItems (Value.member "required" members)
  format : document.format = (Value.member "format" members).truthy?
  constant : document.constant = (Value.member "const" members).nonNull?
  exemplar : document.exemplar = (Value.member "example" members).nonNull?
  additionalProperties :
    document.additionalProperties = (Value.member "additionalProperties" members).nonNull?

/-- **What is read.** Only objects are read as documents, keyword by keyword. -/
theorem ofValue_eq_ok_iff {v : Value} {document : Document} :
    ofValue v = .ok document ↔ ∃ members, v = .object members ∧ document.IsReadFrom members := by
  constructor
  · intro h
    cases v with
    | object members =>
      rw [ofValue_object] at h
      obtain ⟨properties, hproperties, h⟩ := except_bind_eq_ok h
      obtain ⟨items, hitems, h⟩ := except_bind_eq_ok h
      obtain rfl := Except.ok.inj h
      exact ⟨members, rfl, rfl, rfl, hproperties, hitems, rfl, rfl, rfl, rfl, rfl⟩
    | _ => exact nomatch h
  · rintro ⟨members, rfl, h⟩
    obtain ⟨version, type, properties, items, required, format, constant, exemplar, additional⟩ :=
      document
    rw [ofValue_object, h.properties, except_ok_bind, h.items, except_ok_bind, ← h.version,
      ← h.type, ← h.required, ← h.format, ← h.constant, ← h.exemplar, ← h.additionalProperties]
    rfl

/-- The items of a document are read from the items of the value. -/
theorem rel_items?_of_ofValue {v : Value} {document : Document} (h : ofValue v = .ok document) :
    Option.Rel (fun w below => ofValue w = .ok below) v.items? document.items := by
  obtain ⟨members, rfl, hread⟩ := ofValue_eq_ok_iff.mp h
  rw [Value.items?_object]
  rcases partOf_eq_ok hread.items with ⟨hnull, hnone⟩ | ⟨hne, below, hbelow, hsome⟩
  · rw [hnull, hnone]
    exact .none
  · rw [Value.nonNull?_eq_some_iff.mpr ⟨rfl, hne⟩, hsome]
    exact .some hbelow

/-- Every property of a document is read from the property of its name. -/
theorem rel_property?_of_ofValue {v : Value} {document : Document} (h : ofValue v = .ok document)
    (name : String) :
    Option.Rel (fun w below => ofValue w = .ok below) (v.property? name)
      (Table.get? name document.properties) := by
  obtain ⟨members, rfl, hread⟩ := ofValue_eq_ok_iff.mp h
  rw [Value.property?_object]
  rcases partsOf_eq_ok hread.properties with ⟨hnull, hnil⟩ | ⟨fields, hfields, heach⟩
  · rw [hnull, hnil]
    exact .none
  · rw [hfields]
    exact Table.rel_get?_of_forall₂ heach name

/-- **What a document shows at a position was read from the value there.** -/
theorem rel_sub?_of_ofValue {v : Value} {document : Document} (h : ofValue v = .ok document)
    (position : Position) :
    Option.Rel (fun w below => ofValue w = .ok below) (v.sub? position)
      (document.sub? position) := by
  have hstep : ∀ {rest : Position} {w? : Option Value} {below? : Option Document},
      (∀ {w below}, ofValue w = .ok below →
        Option.Rel (fun w below => ofValue w = .ok below) (w.sub? rest) (below.sub? rest)) →
      Option.Rel (fun w below => ofValue w = .ok below) w? below? →
      Option.Rel (fun w below => ofValue w = .ok below) (w?.bind (Value.sub? rest))
        (below?.bind (sub? rest)) := by
    intro rest w? below? hrest hfirst
    cases hfirst with
    | none => exact .none
    | some hread => exact hrest hread
  induction position generalizing v document with
  | nil => exact .some h
  | cons step rest ih =>
    cases step with
    | none => exact hstep ih (rel_items?_of_ofValue h)
    | some name => exact hstep ih (rel_property?_of_ofValue h name)

/-! ## Writing -/

theorem items?_toValue (document : Document) :
    document.toValue.items? = document.items.map toValue := by
  obtain ⟨-, -, -, hitems, -⟩ := member_keywords document
  rw [toValue_eq, Value.items?_object, hitems]
  cases document.items with
  | none => rfl
  | some items =>
    rw [Option.map_some, Option.getD_some, toValue_eq]
    rfl

theorem property?_toValue (name : String) (document : Document) :
    document.toValue.property? name = (Table.get? name document.properties).map toValue := by
  obtain ⟨-, -, hproperties, -⟩ := member_keywords document
  rw [toValue_eq, Value.property?_object, hproperties]
  split
  · show Table.get? name (ascending (·.1) (toMembers document.properties)) = _
    rw [Table.get?_ascending, toMembers_eq_map, Table.get?_map fun _ => toValue]
  · rename_i hnone
    rw [Decidable.not_not.mp hnone]
    rfl

/-- **What is written at a position is the document there.** -/
theorem sub?_toValue (position : Position) (document : Document) :
    document.toValue.sub? position = (document.sub? position).map toValue := by
  induction position generalizing document with
  | nil => rfl
  | cons step rest ih =>
    cases step with
    | none =>
      show document.toValue.items?.bind _ = (document.items.bind _).map toValue
      rw [items?_toValue]
      cases document.items with
      | none => rfl
      | some items => exact ih items
    | some name =>
      show (document.toValue.property? name).bind _ =
        ((Table.get? name document.properties).bind _).map toValue
      rw [property?_toValue]
      cases Table.get? name document.properties with
      | none => rfl
      | some child => exact ih child

/-! ## Normal forms -/

theorem list_listItems_eq_some_iff {v w : Value} :
    (if listItems v ≠ [] then some (Value.list (listItems v)) else none) = some w ↔
      v = w ∧ Value.IsKept "required" w := by
  have hkept : Value.IsKept "required" w ↔ ∃ items, items ≠ [] ∧ w = .list items := by
    simp [Value.isKept_iff]
  rw [hkept]
  cases v with
  | list items =>
    show (if items ≠ [] then some (Value.list items) else none) = some w ↔ _
    by_cases hne : items ≠ []
    · rw [if_pos hne, Option.some.injEq]
      exact ⟨fun h => ⟨h, items, hne, h.symm⟩, And.left⟩
    · rw [if_neg hne]
      refine iff_of_false nofun ?_
      rintro ⟨rfl, others, hothers, hlist⟩
      exact hne (Value.list.inj hlist ▸ hothers)
  | _ =>
    refine iff_of_false nofun ?_
    rintro ⟨rfl, items, -, hlist⟩
    exact nomatch hlist

theorem mem_keywordNames_of_isKept {name : String} {v : Value} (h : Value.IsKept name v) :
    name ∈ keywordNames := by
  cases h with
  | nonNull hname _ =>
    have hsub : ["type", "items", "const", "example", "additionalProperties"] ⊆ keywordNames := by
      decide
    exact hsub hname
  | truthy hname _ =>
    have hsub : ["$schema", "format"] ⊆ keywordNames := by decide
    exact hsub hname
  | properties _ => decide
  | required _ => decide

section Kept

variable {members : List (String × Value)} {document : Document}

/-- The keywords that are copied are those that are kept, with their values. -/
theorem IsReadFrom.get?_keywords_iff (h : document.IsReadFrom members) {name : String}
    (hname : name ∈ keywordNames) (hproperties : name ≠ "properties") (hitems : name ≠ "items")
    {v : Value} :
    Table.get? name document.keywords = some v ↔
      Value.member name members = v ∧ Value.IsKept name v := by
  obtain ⟨hversion, htype, -, -, hrequired, hformat, hconstant, hexemplar, hadditional⟩ :=
    get?_keywords document
  simp only [keywordNames, List.mem_cons, List.not_mem_nil, or_false] at hname
  rcases hname with rfl | rfl | rfl | rfl | rfl | rfl | rfl | rfl | rfl
  · rw [hversion, h.version, Value.truthy?_eq_some_iff]
    simp [Value.isKept_iff]
  · rw [htype, h.type, Value.nonNull?_eq_some_iff]
    simp [Value.isKept_iff]
  · exact absurd rfl hproperties
  · exact absurd rfl hitems
  · rw [hrequired, h.required]
    exact list_listItems_eq_some_iff
  · rw [hformat, h.format, Value.truthy?_eq_some_iff]
    simp [Value.isKept_iff]
  · rw [hconstant, h.constant, Value.nonNull?_eq_some_iff]
    simp [Value.isKept_iff]
  · rw [hexemplar, h.exemplar, Value.nonNull?_eq_some_iff]
    simp [Value.isKept_iff]
  · rw [hadditional, h.additionalProperties, Value.nonNull?_eq_some_iff]
    simp [Value.isKept_iff]

/-- The properties have the names of the fields, in the same order. -/
theorem IsReadFrom.names_properties (h : document.IsReadFrom members)
    {fields : List (String × Value)} (hfields : Value.member "properties" members = .object fields) :
    Table.names document.properties = Table.names fields := by
  have hproperties := h.properties
  rw [hfields] at hproperties
  rcases partsOf_eq_ok hproperties with ⟨hnull, -⟩ | ⟨_, ⟨⟩, heach⟩
  · exact nomatch hnull
  · exact (map_eq_map_of_forall₂ heach fun _ _ _ hboth => hboth.1).symm

theorem IsReadFrom.mem_names_keywords_iff (h : document.IsReadFrom members) {name : String} :
    name ∈ Table.names document.keywords ↔ Value.IsKept name (Value.member name members) := by
  obtain ⟨-, -, hproperties, hitems, -⟩ := get?_keywords document
  by_cases hname : name ∈ keywordNames
  · rw [← Table.isSome_get?_iff]
    -- what is written for properties and items is new, and all else is copied
    by_cases hfirst : name = "properties"
    · subst hfirst
      rw [hproperties]
      rcases partsOf_eq_ok h.properties with ⟨hnull, hnil⟩ | ⟨fields, hfields, -⟩
      · simp [hnull, hnil, Value.isKept_iff]
      · have hempty := Table.eq_nil_iff_of_names_eq (h.names_properties hfields)
        simp [hfields, hempty, Value.isKept_iff]
    by_cases hsecond : name = "items"
    · subst hsecond
      rw [hitems]
      rcases partOf_eq_ok h.items with ⟨hnull, hnone⟩ | ⟨hne, below, -, hsome⟩
      · simp [hnull, hnone, Value.isKept_iff]
      · simp [hne, hsome, Value.isKept_iff]
    rw [Option.isSome_iff_exists]
    simp only [h.get?_keywords_iff hname hfirst hsecond, exists_eq_left']
  · refine iff_of_false ?_ fun hkept => hname (mem_keywordNames_of_isKept hkept)
    exact fun hmem => hname ((names_keywords_sublist document).subset hmem)

end Kept

/-- **What is written is the normal form of what was read.** -/
theorem normalizes_toValue {v : Value} {document : Document} (h : ofValue v = .ok document) :
    v.Normalizes document.toValue := by
  obtain ⟨members, rfl, hread⟩ := ofValue_eq_ok_iff.mp h
  rw [toValue_eq]
  refine .intro (names_keywords_sublist document) (fun name => hread.mem_names_keywords_iff) ?_ ?_
  · intro name hname hproperties hitems
    obtain ⟨v, hv⟩ := Option.isSome_iff_exists.mp (Table.isSome_get?_iff.mpr hname)
    have hlisted := (names_keywords_sublist document).subset hname
    rw [Value.member_eq_of_get? hv,
      ((hread.get?_keywords_iff hlisted hproperties hitems).mp hv).1]
  · intro fields hfields hne
    have hnames := hread.names_properties hfields
    have hmembers : Table.names (toMembers document.properties) = Table.names fields := by
      rw [toMembers_eq_map, Table.names_map, hnames]
    have hsome : document.properties ≠ [] := mt (Table.eq_nil_iff_of_names_eq hnames).mp hne
    obtain ⟨-, -, hkeyword, -⟩ := member_keywords document
    rw [hkeyword, if_pos hsome]
    refine ⟨_, rfl, ?_, ?_⟩
    · rw [← hmembers]
      exact (ascending_perm _ _).map Prod.fst
    · exact List.pairwise_map.mpr (pairwise_ascending _ _)

theorem toValue_congr {document : Document} {items : Option Document}
    {properties : List (String × Document)}
    (hitems : items.map toValue = document.items.map toValue)
    (hproperties : toMembers properties = ascending (·.1) (toMembers document.properties)) :
    toValue { document with items, properties } = document.toValue := by
  have hsorted : ascending (·.1) (toMembers properties) =
      ascending (·.1) (toMembers document.properties) := by
    rw [hproperties, ascending_of_pairwise (pairwise_ascending _ _)]
  have hempty : properties = [] ↔ document.properties = [] := by
    have hlength := congrArg List.length hproperties
    rw [(ascending_perm _ _).length_eq, toMembers_eq_map, toMembers_eq_map, List.length_map,
      List.length_map] at hlength
    rw [← List.length_eq_zero_iff, hlength, List.length_eq_zero_iff]
  rw [toValue_eq, toValue_eq]
  simp only [keywords, hitems, hsorted, keywordUnlessEmpty_congr "properties" hempty]

/-- What is written for the items is read as items that are written in the same way. -/
theorem exists_items_of_toValue {document : Document}
    (h : ∀ items ∈ document.items, ∃ again, ofValue items.toValue = .ok again ∧
      again.toValue = items.toValue) :
    ∃ items, partOf ofValue (Value.member "items" document.keywords) = .ok items ∧
      items.map toValue = document.items.map toValue := by
  obtain ⟨-, -, -, hkeyword, -⟩ := member_keywords document
  rw [hkeyword]
  cases hitems : document.items with
  | none => exact ⟨none, rfl, rfl⟩
  | some items =>
    obtain ⟨again, hagain, hvalue⟩ := h items hitems
    have hne : items.toValue ≠ .null := by
      rw [toValue_eq]
      exact nofun
    exact ⟨some again, partOf_of_ne_null hne hagain, congrArg some hvalue⟩

/-- What is written for the properties is read as the same properties in ascending order. -/
theorem exists_properties_of_toValue {document : Document}
    (h : ∀ child ∈ document.properties, ∃ again, ofValue child.2.toValue = .ok again ∧
      again.toValue = child.2.toValue) (refused : Error) :
    ∃ properties, partsOf (fun _ v => ofValue v) refused
        (Value.member "properties" document.keywords) = .ok properties ∧
      toMembers properties = ascending (·.1) (toMembers document.properties) := by
  obtain ⟨-, -, hkeyword, -⟩ := member_keywords document
  rw [hkeyword]
  split
  · have heach : ∀ member ∈ ascending (·.1) (toMembers document.properties),
        ∃ part : String × Document, (member.1 = part.1 ∧ ofValue member.2 = .ok part.2) ∧
          part.2.toValue = member.2 := by
      intro member hmember
      rw [mem_ascending, toMembers_eq_map] at hmember
      obtain ⟨child, hchild, rfl⟩ := List.mem_map.mp hmember
      obtain ⟨again, hagain, hvalue⟩ := h child hchild
      exact ⟨(child.1, again), ⟨rfl, hagain⟩, hvalue⟩
    obtain ⟨parts, hparts⟩ := exists_forall₂ heach
    exact ⟨parts, partsOf_object_of_forall₂ (hparts.imp fun _ _ h => h.1),
      toMembers_of_forall₂ (hparts.imp fun _ _ h => ⟨h.1.1, h.2⟩)⟩
  · rename_i hnone
    rw [Decidable.not_not.mp hnone]
    exact ⟨[], rfl, rfl⟩

/-- **A normal form is its own normal form.** -/
theorem exists_ofValue_toValue {v : Value} {document : Document} (h : ofValue v = .ok document) :
    ∃ again, ofValue document.toValue = .ok again ∧ again.toValue = document.toValue := by
  induction v using Value.schemaInduction generalizing document with
  | stray v hstray =>
    cases v with
    | object members => exact nomatch hstray
    | _ => exact nomatch h
  | schema members ihItems ihProperties =>
    obtain ⟨_, ⟨⟩, hread⟩ := ofValue_eq_ok_iff.mp h
    obtain ⟨items, hitems, hitemsValue⟩ := exists_items_of_toValue <|
      forall_mem_partOf hread.items fun hne below hbelow =>
        ihItems _ (Value.mem_of_member_eq rfl hne) hbelow
    have heach : ∀ child ∈ document.properties, ∃ again, ofValue child.2.toValue = .ok again ∧
        again.toValue = child.2.toValue :=
      forall_mem_partsOf hread.properties fun fields hfields field hfield below hbelow =>
        ihProperties fields (Value.mem_of_member_eq hfields nofun) field hfield hbelow
    obtain ⟨properties, hproperties, hpropertiesValue⟩ := exists_properties_of_toValue heach
      (.notDocument (Value.member "properties" document.keywords))
    obtain ⟨hversion, htype, -, -, hrequired, hformat, hconstant, hexemplar, hadditional⟩ :=
      member_keywords document
    refine ⟨{ document with items, properties }, ofValue_eq_ok_iff.mpr ⟨document.keywords,
      toValue_eq document, ?_⟩, toValue_congr hitemsValue hpropertiesValue⟩
    -- the keywords with a value of their own are read as they were written
    refine ⟨?_, ?_, hproperties, hitems, ?_, ?_, ?_, ?_, ?_⟩
    · rw [hversion, hread.version, Value.truthy?_idem]
    · rw [htype, hread.type, Value.nonNull?_idem]
    · rw [hrequired]
      split
      · rfl
      · rename_i hnone
        have hnil : document.required = [] := Decidable.not_not.mp hnone
        exact hnil
    · rw [hformat, hread.format, Value.truthy?_idem]
    · rw [hconstant, hread.constant, Value.nonNull?_idem]
    · rw [hexemplar, hread.exemplar, Value.nonNull?_idem]
    · rw [hadditional, hread.additionalProperties, Value.nonNull?_idem]

/-- **The normal form.** What is written for a value that was read as a document can be read and
written again without a change, down to the order of keywords and names. It has sub-schemas at the
same positions, and at each of them the keywords that are kept and no others, unchanged, and the same
properties in ascending order. -/
theorem normalForm_of_ofValue {v : Value} {document : Document} (h : ofValue v = .ok document) :
    (∃ again, ofValue document.toValue = .ok again ∧ again.toValue = document.toValue) ∧
    ∀ position, Option.Rel Value.Normalizes (v.sub? position) (document.toValue.sub? position) := by
  refine ⟨exists_ofValue_toValue h, fun position => ?_⟩
  rw [sub?_toValue]
  have hread := rel_sub?_of_ofValue h position
  generalize v.sub? position = given at hread
  generalize document.sub? position = shown at hread
  cases hread with
  | none => exact .none
  | some hread => exact .some (normalizes_toValue hread)

/-- A schema with keywords that are unknown, empty or of the wrong kind, out of order. -/
def looseSchema : Value :=
  .object [("title", .str "readings"), ("required", .tuple [.str "b"]), ("const", .bool false),
    ("properties", .object [
      ("b", .object [("items", .object []), ("example", .null), ("type", .str "array")]),
      ("a", .object [("format", .str ""), ("required", .list [.int 1]), ("properties", .object [])])]),
    ("$schema", .null), ("type", .list [])]

/-- Its normal form. -/
def tidySchema : Value :=
  .object [("type", .list []),
    ("properties", .object [("a", .object [("required", .list [.int 1])]),
      ("b", .object [("type", .str "array"), ("items", .object [])])]),
    ("const", .bool false)]

theorem normalForm_looseSchema :
    ∃ document, ofValue looseSchema = .ok document ∧ document.toValue = tidySchema ∧
      (∃ again, ofValue tidySchema = .ok again ∧ again.toValue = tidySchema) ∧
      Option.Rel Value.Normalizes (some (.object [])) (tidySchema.sub? [some "b", none]) := by
  obtain ⟨document, hdocument, hvalue⟩ :
      ∃ document, ofValue looseSchema = .ok document ∧ document.toValue = tidySchema :=
    ⟨_, rfl, rfl⟩
  obtain ⟨hagain, hrel⟩ := normalForm_of_ofValue hdocument
  rw [hvalue] at hagain hrel
  exact ⟨document, hdocument, hvalue, hagain, hrel [some "b", none]⟩

end Document

end SampleSchema
