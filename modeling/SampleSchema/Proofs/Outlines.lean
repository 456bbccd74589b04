import SampleSchema.Document.Loading
import SampleSchema.Proofs.Failure
import SampleSchema.Proofs.Grouping
import SampleSchema.Proofs.PlainValue
/-!
# Values read as schemas

A document and a node are both made from the outline of a value. Here the outline is taken out of
the way: `Document.ofValue_object` and `Node.ofOutline_object` say what is made from the members of
an object, part by part, and `Value.schemaInduction` is induction over a value along its
sub-schemas, which are its items and the members of its properties.
-/

namespace SampleSchema

namespace Value

theorem member_eq_of_get? {name : String} {members : Table Value} {v : Value}
    (h : members.get? name = some v) : member name members = v := by
  rw [member, h]
  rfl

theorem mem_of_member_eq {name : String} {members : Table Value} {v : Value}
    (hv : member name members = v) (hne : v ≠ .null) : (name, v) ∈ members := by
  cases hget : members.get? name with
  | none =>
    rw [member, hget] at hv
    exact absurd hv.symm hne
  | some w =>
    obtain rfl := (member_eq_of_get? hget).symm.trans hv
    exact Table.mem_of_get?_eq_some hget

/-- Induction over a value as a schema: along its items, and along the members of its properties. -/
theorem schemaInduction {motive : Value → Prop} (stray : ∀ v, v.members? = none → motive v)
    (schema : ∀ members : List (String × Value), (∀ v, ("items", v) ∈ members → motive v) →
      (∀ children, ("properties", .object children) ∈ members →
        ∀ child ∈ children, motive child.2) → motive (.object members))
    (v : Value) : motive v := by
  -- the members of the properties are two levels down, so the induction carries two levels
  have both : motive v ∧ ∀ members, v = .object members → ∀ member ∈ members, motive member.2 := by
    induction v using partsInduction with
    | object members ih =>
      refine ⟨schema members (fun v hv => (ih _ hv).1) fun children hchildren => ?_, ?_⟩
      · exact (ih _ hchildren).2 children rfl
      · rintro _ ⟨⟩ member hmember
        exact (ih member hmember).1
    | _ => exact ⟨stray _ rfl, nofun⟩
  exact both.1

end Value

/-! ## Outlines of objects -/

namespace Outline

theorem itemsOf_eq (members : List (String × Value)) :
    itemsOf members = ((Value.member "items" members).nonNull?).map ofValue := by
  induction members with
  | nil => rfl
  | cons member rest ih =>
    obtain ⟨name, value⟩ := member
    rw [itemsOf]
    by_cases hname : name = "items"
    · rw [if_pos hname, Value.member, Table.get?, if_pos hname]
      cases value <;> rfl
    · rw [if_neg hname, ih, Value.member, Value.member, Table.get?, if_neg hname]

theorem propertiesOf_eq (members : List (String × Value)) :
    propertiesOf members = propertyOutlines (Value.member "properties" members) := by
  induction members with
  | nil => rfl
  | cons member rest ih =>
    obtain ⟨name, value⟩ := member
    rw [propertiesOf]
    by_cases hname : name = "properties"
    · rw [if_pos hname, Value.member, Table.get?, if_pos hname]
      rfl
    · rw [if_neg hname, ih, Value.member, Value.member, Table.get?, if_neg hname]

end Outline

/-! ## Documents and nodes of objects -/

/-- The parts of a schema that are made from a member: nothing from a null, and from anything else
what `make` makes of it. -/
def partOf {α : Type} (make : Value → Except Error α) (v : Value) : Except Error (Option α) :=
  match v.nonNull? with
  | none => .ok none
  | some v => do return some (← make v)

/-- The parts of a schema that are made from its properties: one from each member, by its name. -/
def partsOf {α : Type} (make : String → Value → Except Error α) (refused : Error) :
    Value → Except Error (List (String × α))
  | .null => .ok []
  | .object members => members.mapM fun member => do
    return (member.1, ← make member.1 member.2)
  | _ => .error refused

section Parts

variable {α : Type} {make : Value → Except Error α} {makeNamed : String → Value → Except Error α}
  {refused : Error}

theorem partOf_eq_ok {v : Value} {part : Option α} (h : partOf make v = .ok part) :
    (v = .null ∧ part = none) ∨ v ≠ .null ∧ ∃ a, make v = .ok a ∧ part = some a := by
  unfold partOf at h
  cases v with
  | null => exact .inl ⟨rfl, (Except.ok.inj h).symm⟩
  | _ =>
    obtain ⟨a, ha, h⟩ := except_bind_eq_ok h
    exact .inr ⟨nofun, a, ha, (Except.ok.inj h).symm⟩

theorem partOf_of_ne_null {v : Value} (hne : v ≠ .null) {a : α} (h : make v = .ok a) :
    partOf make v = .ok (some a) := by
  cases v with
  | null => exact absurd rfl hne
  | _ =>
    show (do return some (← make _)) = _
    rw [h]
    rfl

theorem partsOf_eq_ok {v : Value} {parts : List (String × α)}
    (h : partsOf makeNamed refused v = .ok parts) :
    (v = .null ∧ parts = []) ∨ ∃ members, v = .object members ∧
      List.Forall₂ (fun member part => member.1 = part.1 ∧ makeNamed member.1 member.2 = .ok part.2)
        members parts := by
  unfold partsOf at h
  cases v with
  | null => exact .inl ⟨rfl, (Except.ok.inj h).symm⟩
  | object members =>
    refine .inr ⟨members, rfl, ?_⟩
    refine (forall₂_of_mapM h).imp fun member part hpart => ?_
    obtain ⟨a, ha, hpart⟩ := except_bind_eq_ok hpart
    obtain rfl := Except.ok.inj hpart
    exact ⟨rfl, ha⟩
  | _ => exact nomatch h

theorem partOf_eq_error {v : Value} {error : Error} (h : partOf make v = .error error) :
    v ≠ .null ∧ make v = .error error := by
  unfold partOf at h
  cases v with
  | null => exact nomatch h
  | _ =>
    rcases except_bind_eq_error h with hmake | ⟨a, -, hlast⟩
    · exact ⟨nofun, hmake⟩
    · exact nomatch hlast

theorem partsOf_eq_error {v : Value} {error : Error}
    (h : partsOf makeNamed refused v = .error error) :
    (v ≠ .null ∧ v.members? = none ∧ error = refused) ∨ ∃ members, v = .object members ∧
      ∃ member ∈ members, makeNamed member.1 member.2 = .error error := by
  unfold partsOf at h
  cases v with
  | null => exact nomatch h
  | object members =>
    obtain ⟨member, hmember, herror⟩ := exists_of_mapM_eq_error h
    rcases except_bind_eq_error herror with hmake | ⟨a, -, hlast⟩
    · exact .inr ⟨members, rfl, member, hmember, hmake⟩
    · exact nomatch hlast
  | _ => exact .inl ⟨nofun, rfl, (Except.error.inj h).symm⟩

theorem forall_mem_partOf {P : α → Prop} {v : Value} {part : Option α}
    (h : partOf make v = .ok part) (hP : v ≠ .null → ∀ a, make v = .ok a → P a) :
    ∀ a ∈ part, P a := by
  rcases partOf_eq_ok h with ⟨-, rfl⟩ | ⟨hne, a, ha, rfl⟩
  · exact nofun
  · rintro _ ⟨⟩
    exact hP hne a ha

theorem forall_mem_partsOf {P : α → Prop} {v : Value} {parts : List (String × α)}
    (h : partsOf makeNamed refused v = .ok parts)
    (hP : ∀ members, v = .object members → ∀ member ∈ members, ∀ a,
      makeNamed member.1 member.2 = .ok a → P a) : ∀ part ∈ parts, P part.2 := by
  rcases partsOf_eq_ok h with ⟨-, rfl⟩ | ⟨members, rfl, heach⟩
  · exact fun _ hpart => absurd hpart List.not_mem_nil
  · intro part hpart
    obtain ⟨member, hmember, -, hmake⟩ := exists_of_mem_right heach hpart
    exact hP members rfl member hmember part.2 hmake

theorem exists_of_partsOf {members : List (String × Value)} {parts : List (String × α)}
    (h : partsOf makeNamed refused (.object members) = .ok parts) :
    ∀ member ∈ members, ∃ a, makeNamed member.1 member.2 = .ok a := by
  rcases partsOf_eq_ok h with ⟨hnull, -⟩ | ⟨fields, hfields, heach⟩
  · exact nomatch hnull
  · obtain rfl := Value.object.inj hfields
    intro member hmember
    obtain ⟨part, -, -, hmake⟩ := exists_of_mem_left heach hmember
    exact ⟨part.2, hmake⟩

theorem names_of_partsOf {v : Value} {parts : List (String × α)}
    (h : partsOf makeNamed refused v = .ok parts) :
    parts = [] ∨ ∃ members, v = .object members ∧ Table.names parts = Table.names members := by
  rcases partsOf_eq_ok h with ⟨-, hnil⟩ | ⟨members, hmembers, heach⟩
  · exact .inl hnil
  · have hnames : Table.names members = Table.names parts :=
      map_eq_map_of_forall₂ heach fun _ _ _ hboth => hboth.1
    exact .inr ⟨members, hmembers, hnames.symm⟩

theorem partsOf_object_of_forall₂ {members : List (String × Value)} {parts : List (String × α)}
    (h : List.Forall₂ (fun member part => member.1 = part.1 ∧
      makeNamed member.1 member.2 = .ok part.2) members parts) :
    partsOf makeNamed refused (.object members) = .ok parts := by
  refine mapM_of_forall₂ (h.imp fun member part hpart => ?_)
  rw [hpart.2, except_ok_bind, hpart.1]
  rfl

/-- What can be made in one way can be made in another, if this is so for the value itself. -/
theorem exists_partOf_of_partOf {β : Type} {make' : Value → Except Error β} {v : Value}
    {part : Option α} (h : partOf make v = .ok part)
    (hmake : v ≠ .null → ∀ a, make v = .ok a → ∃ b, make' v = .ok b) :
    ∃ part', partOf make' v = .ok part' := by
  rcases partOf_eq_ok h with ⟨rfl, -⟩ | ⟨hne, a, ha, -⟩
  · exact ⟨none, rfl⟩
  · obtain ⟨b, hb⟩ := hmake hne a ha
    exact ⟨some b, partOf_of_ne_null hne hb⟩

theorem exists_partsOf_of_partsOf {β : Type} {makeNamed' : String → Value → Except Error β}
    (refused' : Error) {v : Value} {parts : List (String × α)}
    (h : partsOf makeNamed refused v = .ok parts)
    (hmake : ∀ members, v = .object members → ∀ member ∈ members, ∀ a,
      makeNamed member.1 member.2 = .ok a → ∃ b, makeNamed' member.1 member.2 = .ok b) :
    ∃ parts', partsOf makeNamed' refused' v = .ok parts' := by
  rcases partsOf_eq_ok h with ⟨rfl, -⟩ | ⟨members, rfl, heach⟩
  · exact ⟨[], rfl⟩
  · have hparts : ∀ member ∈ members, ∃ part : String × β,
        member.1 = part.1 ∧ makeNamed' member.1 member.2 = .ok part.2 := by
      intro member hmember
      obtain ⟨part, -, -, ha⟩ := exists_of_mem_left heach hmember
      obtain ⟨b, hb⟩ := hmake members rfl member hmember part.2 ha
      exact ⟨(member.1, b), rfl, hb⟩
    obtain ⟨parts', hforall⟩ := exists_forall₂ hparts
    exact ⟨parts', partsOf_object_of_forall₂ hforall⟩

/-- Two parts that are made from one value, each in its own way. -/
theorem rel_of_partOf {β : Type} {make' : Value → Except Error β} {v : Value} {part : Option α}
    {part' : Option β} (h : partOf make v = .ok part) (h' : partOf make' v = .ok part') :
    Option.Rel (fun a b => ∃ w, make w = .ok a ∧ make' w = .ok b) part part' := by
  rcases partOf_eq_ok h with ⟨rfl, rfl⟩ | ⟨hne, a, ha, rfl⟩
  · obtain rfl := Except.ok.inj h'
    exact .none
  · rcases partOf_eq_ok h' with ⟨hnull, -⟩ | ⟨-, b, hb, rfl⟩
    · exact absurd hnull hne
    · exact .some ⟨v, ha, hb⟩

theorem forall₂_of_partsOf {β : Type} {makeNamed' : String → Value → Except Error β}
    {refused' : Error} {v : Value} {parts : List (String × α)} {parts' : List (String × β)}
    (h : partsOf makeNamed refused v = .ok parts) (h' : partsOf makeNamed' refused' v = .ok parts') :
    List.Forall₂ (fun part part' => part.1 = part'.1 ∧
      ∃ w, makeNamed part.1 w = .ok part.2 ∧ makeNamed' part.1 w = .ok part'.2) parts parts' := by
  rcases partsOf_eq_ok h with ⟨rfl, rfl⟩ | ⟨members, rfl, heach⟩
  · obtain rfl := Except.ok.inj h'
    exact .nil
  · rcases partsOf_eq_ok h' with ⟨hnull, -⟩ | ⟨members', hmembers', heach'⟩
    · exact nomatch hnull
    · obtain rfl := Value.object.inj hmembers'
      refine (forall₂_of_common heach heach').imp fun part part' hpart => ?_
      obtain ⟨member, ⟨hname, hmake⟩, hname', hmake'⟩ := hpart
      rw [hname] at hmake hname' hmake'
      exact ⟨hname', member.2, hmake, hmake'⟩

end Parts

namespace Document

theorem ofOutlines_memberOutlines (members : List (String × Value)) :
    ofOutlines (Outline.memberOutlines members) =
      members.mapM fun member => do return (member.1, ← ofValue member.2) := by
  induction members with
  | nil => rfl
  | cons member rest ih =>
    obtain ⟨name, value⟩ := member
    rw [Outline.memberOutlines, ofOutlines, List.mapM_cons, ih]
    show (do let document ← ofValue value; _) = _
    cases ofValue value <;> rfl

theorem ofValue_object (members : List (String × Value)) :
    ofValue (.object members) = (do
      let properties ← partsOf (fun _ v => ofValue v)
        (.notDocument (Value.member "properties" members)) (Value.member "properties" members)
      let items ← partOf ofValue (Value.member "items" members)
      return {
        version := (Value.member "$schema" members).truthy?
        type := (Value.member "type" members).nonNull?
        properties
        items
        required := listItems (Value.member "required" members)
        format := (Value.member "format" members).truthy?
        constant := (Value.member "const" members).nonNull?
        exemplar := (Value.member "example" members).nonNull?
        additionalProperties := (Value.member "additionalProperties" members).nonNull? }) := by
  have hitems : ofItems (Outline.itemsOf members) =
      partOf ofValue (Value.member "items" members) := by
    rw [Outline.itemsOf_eq, partOf]
    cases (Value.member "items" members).nonNull? <;> rfl
  have hproperties : ofProperties members (Outline.propertiesOf members) =
      partsOf (fun _ v => ofValue v) (.notDocument (Value.member "properties" members))
        (Value.member "properties" members) := by
    rw [Outline.propertiesOf_eq]
    cases hvalue : Value.member "properties" members with
    | object children => exact ofOutlines_memberOutlines children
    | null => rfl
    | _ =>
      show Except.error _ = _
      rw [hvalue]
      rfl
  rw [ofValue, Outline.ofValue, ofOutline, hitems, hproperties]

end Document

namespace Node

theorem ofOutlines_memberOutlines (samples : Nat) (required : List String)
    (members : List (String × Value)) :
    ofOutlines samples required (Outline.memberOutlines members) =
      members.mapM fun member => do
        return (member.1, ← ofOutline (propertySamples samples (required.contains member.1))
          (.ofValue member.2)) := by
  induction members with
  | nil => rfl
  | cons member rest ih =>
    obtain ⟨name, value⟩ := member
    rw [Outline.memberOutlines, ofOutlines, List.mapM_cons, ih]
    dsimp only
    cases ofOutline (propertySamples samples (required.contains name)) (.ofValue value) <;> rfl

theorem ofOutline_object (samples : Nat) (members : List (String × Value)) :
    ofOutline samples (.ofValue (.object members)) = (do
      let types ← loadedTypes (Value.member "type" members)
      let item ← partOf (fun v => ofOutline samples (.ofValue v)) (Value.member "items" members)
      let children ← partsOf (fun name v => ofOutline (propertySamples samples
          ((requiredNames (Value.member "required" members)).contains name)) (.ofValue v))
        .propertiesNotObject (Value.member "properties" members)
      return { ofKeywords samples types members with item, properties := children }) := by
  have hitem : ofItems samples (Outline.itemsOf members) =
      partOf (fun v => ofOutline samples (.ofValue v)) (Value.member "items" members) := by
    rw [Outline.itemsOf_eq, partOf]
    cases (Value.member "items" members).nonNull? <;> rfl
  have hchildren : ∀ required : List String,
      ofProperties samples required (Outline.propertiesOf members) =
      partsOf (fun name v =>
          ofOutline (propertySamples samples (required.contains name)) (.ofValue v))
        .propertiesNotObject (Value.member "properties" members) := by
    intro required
    rw [Outline.propertiesOf_eq]
    cases Value.member "properties" members with
    | object children => exact ofOutlines_memberOutlines samples required children
    | _ => rfl
  rw [Outline.ofValue, ofOutline, hitem, hchildren]

end Node

end SampleSchema
