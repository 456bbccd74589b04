import SampleSchema.Proofs.Holdings
/-!
# Reading the value of a document back

A document that is written and read again may come back in another form: its properties are sorted,
octets have become texts, and fixed sequences arrays. But it is written in the same way, and a node
can be made from what was written, so it can be loaded. `ofValue_plain_toValue` and
`ofOutline_plain_toValue` say so for every sound document.
-/

namespace SampleSchema

variable {test : Value → Bool}

/-! ## Looking up keywords -/

theorem Table.get?_append {α : Type} (name : String) (table more : Table α) :
    Table.get? name (table ++ more) = (table.get? name).or (Table.get? name more) := by
  induction table with
  | nil => rfl
  | cons entry rest ih =>
    obtain ⟨key, entry⟩ := entry
    rw [List.cons_append, get?, get?]
    split
    · rfl
    · exact ih

theorem Value.member_map_plain (name : String) (members : List (String × Value)) :
    member name (members.map fun member => (member.1, member.2.plain)) =
      (member name members).plain := by
  induction members with
  | nil => rfl
  | cons first rest ih =>
    obtain ⟨key, v⟩ := first
    rw [List.map_cons, member, member, Table.get?, Table.get?]
    split
    · rfl
    · exact ih

theorem insertAscending_of_le {α : Type} {name : α → String} {x : α} {xs : List α}
    (h : ∀ y ∈ xs, name x ≤ name y) : insertAscending name x xs = x :: xs := by
  cases xs with
  | nil => rfl
  | cons y rest => rw [insertAscending, if_pos (h y List.mem_cons_self)]

/-- What is sorted already stays as it is. -/
theorem ascending_of_pairwise {α : Type} {name : α → String} {xs : List α}
    (h : xs.Pairwise fun a b => name a ≤ name b) : ascending name xs = xs := by
  induction xs with
  | nil => rfl
  | cons x rest ih =>
    obtain ⟨hbelow, hrest⟩ := List.pairwise_cons.mp h
    rw [ascending, ih hrest, insertAscending_of_le hbelow]

theorem Value.IsTypes.ne_null {v : Value} (hv : v.IsTypes) : v ≠ .null := by
  rcases hv with ⟨name, rfl⟩ | ⟨names, rfl⟩
  · exact nofun
  · exact nofun

theorem Value.IsTypes.plain_eq {v : Value} (hv : v.IsTypes) : v.plain = v := by
  rcases hv with ⟨name, rfl⟩ | ⟨names, rfl⟩
  · rfl
  · rw [plain_list, List.map_map]
    rfl

namespace Document

theorem get?_keyword (name key : String) (value : Option Value) :
    Table.get? name (keyword key value) = if key = name then value else none := by
  cases value <;> simp [keyword, Table.get?]

theorem get?_keywordUnlessEmpty {α : Type} (name key : String) (things : List α) (value : Value) :
    Table.get? name (keywordUnlessEmpty key things value) =
      if key = name ∧ things ≠ [] then some value else none := by
  cases things <;> simp [keywordUnlessEmpty, Table.get?]

/-- Every keyword is found where it was written, and only if it was. -/
theorem get?_keywords (document : Document) :
    Table.get? "$schema" document.keywords = document.version ∧
    Table.get? "type" document.keywords = document.type ∧
    Table.get? "properties" document.keywords =
      (if document.properties ≠ [] then
        some (.object (ascending (·.1) (toMembers document.properties))) else none) ∧
    Table.get? "items" document.keywords = document.items.map toValue ∧
    Table.get? "required" document.keywords =
      (if document.required ≠ [] then some (.list document.required) else none) ∧
    Table.get? "format" document.keywords = document.format ∧
    Table.get? "const" document.keywords = document.constant ∧
    Table.get? "example" document.keywords = document.exemplar ∧
    Table.get? "additionalProperties" document.keywords = document.additionalProperties := by
  simp [keywords, Table.get?_append, get?_keyword, get?_keywordUnlessEmpty]

/-- So the member of its name is its value, or null. -/
theorem member_keywords (document : Document) :
    Value.member "$schema" document.keywords = document.version.getD .null ∧
    Value.member "type" document.keywords = document.type.getD .null ∧
    Value.member "properties" document.keywords =
      (if document.properties ≠ [] then
        .object (ascending (·.1) (toMembers document.properties)) else .null) ∧
    Value.member "items" document.keywords = (document.items.map toValue).getD .null ∧
    Value.member "required" document.keywords =
      (if document.required ≠ [] then .list document.required else .null) ∧
    Value.member "format" document.keywords = document.format.getD .null ∧
    Value.member "const" document.keywords = document.constant.getD .null ∧
    Value.member "example" document.keywords = document.exemplar.getD .null ∧
    Value.member "additionalProperties" document.keywords =
      document.additionalProperties.getD .null := by
  have hif : ∀ (things : Prop) [Decidable things] (v : Value),
      (if things then some v else none).getD .null = if things then v else .null := by
    intro things _ v
    split <;> rfl
  obtain ⟨hversion, htype, hproperties, hitems, hrequired, hformat, hconstant, hexemplar,
    hadditional⟩ := get?_keywords document
  simp only [Value.member, hversion, htype, hproperties, hitems, hrequired, hformat, hconstant,
    hexemplar, hadditional, hif, and_self]

/-! ## What is read -/

theorem map_plain_keyword (key : String) (value : Option Value) :
    (keyword key value).map (fun member => (member.1, member.2.plain)) =
      keyword key (value.map Value.plain) := by
  cases value <;> rfl

theorem map_plain_keywordUnlessEmpty {α : Type} (key : String) (things : List α) (value : Value) :
    (keywordUnlessEmpty key things value).map (fun member => (member.1, member.2.plain)) =
      keywordUnlessEmpty key things value.plain := by
  cases things <;> rfl

theorem keywordUnlessEmpty_congr {α β : Type} (key : String) {things : List α} {others : List β}
    (h : things = [] ↔ others = []) (value : Value) :
    keywordUnlessEmpty key things value = keywordUnlessEmpty key others value := by
  cases things with
  | nil =>
    rw [h.mp rfl]
    rfl
  | cons thing rest =>
    cases others with
    | nil => exact nomatch h.mpr rfl
    | cons other rest' => rfl

/-- The members of the written properties, as they are read. -/
def writtenMembers (document : Document) : List (String × Value) :=
  (ascending (·.1) (toMembers document.properties)).map fun member => (member.1, member.2.plain)

/-- The second document is what the value of the first one is read as. -/
structure Reread (document other : Document) : Prop where
  version : other.version = document.version.map Value.plain
  type : other.type = document.type.map Value.plain
  properties : toMembers other.properties = document.writtenMembers
  items : other.items.map toValue = document.items.map fun items => items.toValue.plain
  required : other.required = document.required.map Value.plain
  format : other.format = document.format.map Value.plain
  constant : other.constant = document.constant.map Value.plain
  exemplar : other.exemplar = document.exemplar.map Value.plain
  additionalProperties : other.additionalProperties = document.additionalProperties.map Value.plain

theorem Reread.ascending_eq {document other : Document} (h : Reread document other) :
    ascending (·.1) (toMembers other.properties) = toMembers other.properties := by
  refine ascending_of_pairwise ?_
  rw [h.properties, writtenMembers, List.pairwise_map]
  exact pairwise_ascending (·.1) (toMembers document.properties)

theorem Reread.properties_eq_nil_iff {document other : Document} (h : Reread document other) :
    other.properties = [] ↔ document.properties = [] := by
  have hlength := congrArg List.length h.properties
  rw [writtenMembers, List.length_map, (ascending_perm _ _).length_eq, toMembers_eq_map, toMembers_eq_map,
    List.length_map, List.length_map] at hlength
  rw [← List.length_eq_zero_iff, hlength, List.length_eq_zero_iff]

theorem Reread.items_eq_none_iff {document other : Document} (h : Reread document other) :
    other.items = none ↔ document.items = none := by
  rw [← Option.map_eq_none_iff (f := Document.toValue), h.items, Option.map_eq_none_iff]

/-- It is written in the same way. -/
theorem Reread.toValue {document other : Document} (h : Reread document other) :
    other.toValue = document.toValue.plain := by
  have hrequired : other.required = [] ↔ document.required = [] := by
    rw [h.required, List.map_eq_nil_iff]
  rw [toValue_eq, toValue_eq, Value.plain_object]
  simp only [keywords, List.map_append, map_plain_keyword, map_plain_keywordUnlessEmpty,
    Value.plain_object, Value.plain_list, Option.map_map]
  rw [h.version, h.type, h.format, h.constant, h.exemplar, h.additionalProperties, h.items,
    keywordUnlessEmpty_congr "properties" h.properties_eq_nil_iff,
    keywordUnlessEmpty_congr "required" hrequired, h.ascending_eq, h.properties, h.required]
  rfl

theorem truthy?_plain {value : Option Value} (h : ∀ v ∈ value, v.truthy = true) :
    (value.getD .null).plain.truthy? = value.map Value.plain := by
  cases value with
  | none => rfl
  | some v =>
    rw [Option.getD_some, Value.truthy?, Value.truthy_plain, if_pos (h v rfl)]
    rfl

theorem nonNull?_plain {value : Option Value} (h : ∀ v ∈ value, v ≠ .null) :
    (value.getD .null).plain.nonNull? = value.map Value.plain := by
  cases value with
  | none => rfl
  | some v => exact Value.nonNull?_eq_some_iff.mpr ⟨rfl, mt Value.plain_eq_null_iff.mp (h v rfl)⟩

theorem plain_toValue_ne_null (document : Document) : document.toValue.plain ≠ .null := by
  rw [toValue_eq, Value.plain_object]
  exact nofun

section Parts

variable {α : Type} (P : Value → α → Prop) (document : Document)

/-- What can be made of the written items can be made of the items keyword. -/
theorem exists_partOf_items (make : Value → Except Error α)
    (h : ∀ items ∈ document.items, ∃ a, make items.toValue.plain = .ok a ∧
      P items.toValue.plain a) :
    ∃ part, partOf make (Value.member "items" document.keywords).plain = .ok part ∧
      Option.Rel (fun items a => P items.toValue.plain a) document.items part := by
  obtain ⟨-, -, -, hkeyword, -⟩ := member_keywords document
  rw [hkeyword]
  cases hitems : document.items with
  | none => exact ⟨none, rfl, .none⟩
  | some items =>
    obtain ⟨a, ha, hPa⟩ := h items hitems
    exact ⟨some a, partOf_of_ne_null (plain_toValue_ne_null items) ha, .some hPa⟩

/-- What can be made of the written properties can be made of the properties keyword. -/
theorem exists_partsOf_properties (make : String → Value → Except Error α)
    (h : ∀ child ∈ document.properties, ∀ name, ∃ a, make name child.2.toValue.plain = .ok a ∧
      P child.2.toValue.plain a) (refused : Error) :
    ∃ parts,
      partsOf make refused (Value.member "properties" document.keywords).plain = .ok parts ∧
      List.Forall₂ (fun member part => member.1 = part.1 ∧ P member.2 part.2)
        document.writtenMembers parts := by
  obtain ⟨-, -, hkeyword, -⟩ := member_keywords document
  rw [hkeyword]
  split
  · have heach : ∀ member ∈ document.writtenMembers, ∃ part : String × α,
        (member.1 = part.1 ∧ make member.1 member.2 = .ok part.2) ∧ P member.2 part.2 := by
      intro member hmember
      obtain ⟨written, hwritten, rfl⟩ := List.mem_map.mp hmember
      rw [mem_ascending, toMembers_eq_map] at hwritten
      obtain ⟨child, hchild, rfl⟩ := List.mem_map.mp hwritten
      obtain ⟨a, ha, hPa⟩ := h child hchild child.1
      exact ⟨(child.1, a), ⟨rfl, ha⟩, hPa⟩
    obtain ⟨parts, hparts⟩ := exists_forall₂ heach
    refine ⟨parts, ?_, hparts.imp fun _ _ h => ⟨h.1.1, h.2⟩⟩
    rw [Value.plain_object]
    exact partsOf_object_of_forall₂ (hparts.imp fun _ _ h => h.1)
  · rename_i hnone
    refine ⟨[], rfl, ?_⟩
    rw [writtenMembers, Decidable.not_not.mp hnone]
    exact .nil

end Parts

theorem toMembers_of_forall₂ {members : List (String × Value)} {parts : List (String × Document)}
    (h : List.Forall₂ (fun member part => member.1 = part.1 ∧ part.2.toValue = member.2)
      members parts) : toMembers parts = members := by
  have hmap : members.map id = parts.map fun part => (part.1, part.2.toValue) :=
    map_eq_map_of_forall₂ h fun _ _ _ hboth => Prod.ext hboth.1 hboth.2.symm
  rw [toMembers_eq_map, ← hmap, List.map_id]

/-- A sound document is read back from its value. -/
theorem exists_reread {document : Document} (hdocument : document.Everywhere (Sound test)) :
    ∃ other, ofValue document.toValue.plain = .ok other ∧ Reread document other := by
  induction hdocument with
  | intro here items properties ihItems ihProperties =>
    rename_i document
    obtain ⟨hversion, htype, -, -, hrequired, hformat, hconstant, hexemplar, hadditional⟩ :=
      member_keywords document
    have heachItem : ∀ items ∈ document.items, ∃ other,
        ofValue items.toValue.plain = .ok other ∧ other.toValue = items.toValue.plain := by
      intro items hitems
      obtain ⟨other, hother, hreread⟩ := ihItems items hitems
      exact ⟨other, hother, hreread.toValue⟩
    have heachChild : ∀ child ∈ document.properties, ∀ _ : String, ∃ other,
        ofValue child.2.toValue.plain = .ok other ∧ other.toValue = child.2.toValue.plain := by
      intro child hchild _
      obtain ⟨other, hother, hreread⟩ := ihProperties child hchild
      exact ⟨other, hother, hreread.toValue⟩
    obtain ⟨part, hpart, hitems⟩ :=
      exists_partOf_items (fun v other => toValue other = v) document ofValue heachItem
    obtain ⟨parts, hparts, hproperties⟩ :=
      exists_partsOf_properties (fun v other => toValue other = v) document (fun _ => ofValue)
        heachChild
        (.notDocument (Value.member "properties" document.keywords).plain)
    rw [toValue_eq, Value.plain_object, ofValue_object]
    simp only [Value.member_map_plain]
    rw [hparts, except_ok_bind, hpart, except_ok_bind, hversion, htype, hrequired, hformat,
      hconstant, hexemplar, hadditional]
    have hlist : listItems (if document.required ≠ [] then Value.list document.required
        else .null).plain = document.required.map Value.plain := by
      split
      · exact congrArg listItems (Value.plain_list document.required)
      · rename_i hnone
        rw [Decidable.not_not.mp hnone]
        rfl
    have hpartValue : part.map toValue = document.items.map fun items => items.toValue.plain := by
      generalize document.items = given at hitems
      cases hitems with
      | none => rfl
      | some hvalue => exact congrArg some hvalue
    exact ⟨_, rfl, truthy?_plain fun v hv => (here.version v hv).1,
      nonNull?_plain fun v hv => (here.type v hv).ne_null, toMembers_of_forall₂ hproperties,
      hpartValue, hlist, truthy?_plain fun v hv => (here.format v hv).1,
      nonNull?_plain fun v hv => (here.constant v hv).1,
      nonNull?_plain fun v hv => (here.exemplar v hv).1,
      nonNull?_plain fun v hv => (here.additionalProperties v hv).1⟩

/-- What passes from every document to the one that its value is read as, passes to the parts, too. -/
theorem everywhere_reread {P Q : Document → Prop}
    (hkeep : ∀ document other, Sound test document → P document → Reread document other → Q other)
    {document : Document} (hsound : document.Everywhere (Sound test))
    (hdocument : document.Everywhere P) {other : Document}
    (hother : ofValue document.toValue.plain = .ok other) : other.Everywhere Q := by
  induction hsound generalizing other with
  | intro here items properties ihItems ihProperties =>
    rename_i document
    have hhere : Q other := by
      obtain ⟨reread, hread, hreread⟩ := exists_reread (.intro here items properties)
      rw [hother] at hread
      obtain rfl := Except.ok.inj hread
      exact hkeep document other here hdocument.here hreread
    rw [toValue_eq, Value.plain_object, ofValue_object] at hother
    simp only [Value.member_map_plain] at hother
    obtain ⟨parts, hparts, hother⟩ := except_bind_eq_ok hother
    obtain ⟨part, hpart, hother⟩ := except_bind_eq_ok hother
    obtain rfl := Except.ok.inj hother
    obtain ⟨-, -, hproperties, hitems, -⟩ := member_keywords document
    refine .intro hhere ?_ ?_
    · refine forall_mem_partOf hpart fun hne below hbelow => ?_
      rw [hitems] at hne hbelow
      cases hwritten : document.items with
      | none =>
        rw [hwritten] at hne
        exact absurd rfl hne
      | some written =>
        rw [hwritten] at hbelow
        exact ihItems written hwritten (hdocument.items written hwritten) hbelow
    · refine forall_mem_partsOf hparts fun members hmembers member hmember below hbelow => ?_
      rw [hproperties] at hmembers
      split at hmembers
      · rw [Value.plain_object] at hmembers
        obtain rfl := Value.object.inj hmembers
        obtain ⟨written, hwritten, rfl⟩ := List.mem_map.mp hmember
        rw [mem_ascending, toMembers_eq_map] at hwritten
        obtain ⟨child, hchild, rfl⟩ := List.mem_map.mp hwritten
        exact ihProperties child hchild (hdocument.properties child hchild) hbelow
      · exact nomatch hmembers

/-! ## The node that is read -/

theorem allTexts?_map_str (names : List String) :
    Node.allTexts? (names.map .str) = some names := by
  unfold Node.allTexts?
  induction names with
  | nil => rfl
  | cons name rest ih =>
    rw [List.map_cons, List.mapM_cons, ih]
    rfl

theorem exists_loadedTypes {v : Value} (hv : v.IsTypes) :
    ∃ types, Node.loadedTypes v = .ok types := by
  rcases hv with ⟨name, rfl⟩ | ⟨names, rfl⟩
  · exact ⟨[name], rfl⟩
  · rw [Node.loadedTypes, allTexts?_map_str]
    dsimp only
    split
    · exact ⟨_, rfl⟩
    · exact ⟨_, rfl⟩

/-- A node can be made from the value of a sound document, too. -/
theorem exists_node {document : Document} (hdocument : document.Everywhere (Sound test))
    (samples : Nat) :
    ∃ node, Node.ofOutline samples (.ofValue document.toValue.plain) = .ok node := by
  induction hdocument generalizing samples with
  | intro here items properties ihItems ihProperties =>
    rename_i document
    have htypes : ∃ types,
        Node.loadedTypes (Value.member "type" document.keywords).plain = .ok types := by
      obtain ⟨-, htype, -⟩ := member_keywords document
      rw [htype]
      cases hv : document.type with
      | none => exact ⟨[], rfl⟩
      | some v =>
        rw [Option.getD_some, (here.type v hv).plain_eq]
        exact exists_loadedTypes (here.type v hv)
    obtain ⟨types, htypes⟩ := htypes
    have heachItem : ∀ items ∈ document.items, ∃ node,
        Node.ofOutline samples (.ofValue items.toValue.plain) = .ok node ∧ True := by
      intro items hitems
      obtain ⟨node, hnode⟩ := ihItems items hitems samples
      exact ⟨node, hnode, trivial⟩
    -- how many samples a property counts depends on its name, and does not matter
    have heachChild : ∀ child ∈ document.properties, ∀ name, ∃ node,
        Node.ofOutline (Node.propertySamples samples ((Node.requiredNames
          (Value.member "required" document.keywords).plain).contains name))
          (.ofValue child.2.toValue.plain) = .ok node ∧ True := by
      intro child hchild name
      obtain ⟨node, hnode⟩ := ihProperties child hchild _
      exact ⟨node, hnode, trivial⟩
    obtain ⟨item, hitem, -⟩ := exists_partOf_items (fun _ _ => True) document
      (fun v => Node.ofOutline samples (.ofValue v)) heachItem
    obtain ⟨children, hchildren, -⟩ := exists_partsOf_properties (fun _ _ => True) document
      (fun name v => Node.ofOutline (Node.propertySamples samples ((Node.requiredNames
        (Value.member "required" document.keywords).plain).contains name)) (.ofValue v))
      heachChild .propertiesNotObject
    rw [toValue_eq, Value.plain_object, Node.ofOutline_object]
    simp only [Value.member_map_plain]
    rw [htypes, except_ok_bind, hitem, except_ok_bind, hchildren, except_ok_bind]
    exact ⟨_, rfl⟩

end Document

end SampleSchema
