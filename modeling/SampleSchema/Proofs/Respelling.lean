import Mathlib.Data.List.Forall2
import SampleSchema.Document.Basic
import SampleSchema.Proofs.Order
import SampleSchema.Proofs.Scalar
/-!
# Documents that differ in the spelling of constants

An integer and a binary number can stand for the same amount, and the constant of a position is
shown as it came first. `Respelled` relates two written schemas that agree in everything, the
order of keywords and of properties included, but for constants that are the same number.

A document is written with its properties by ascending name, so that two documents are written
alike although their properties stand in another order. `Document.Respelling` says so keyword
by keyword, and `Document.Respelling.toValue` puts the keywords together.
-/

namespace SampleSchema

mutual

/-- The second schema is the first one, but that the number of a constant may be spelled in
another way. -/
inductive Respelled : Value → Value → Prop where
  | schema {keywords others : List (String × Value)}
      (each : List.Forall₂ RespelledKeyword keywords others) :
      Respelled (.object keywords) (.object others)

/-- The same for one keyword and its value. -/
inductive RespelledKeyword : String × Value → String × Value → Prop where
  | same (keyword : String × Value) : RespelledKeyword keyword keyword
  | const {v w : Value} (amount : v.SameNumber w) :
      RespelledKeyword ("const", v) ("const", w)
  | items {v w : Value} (schema : Respelled v w) : RespelledKeyword ("items", v) ("items", w)
  | properties {members others : List (String × Value)}
      (each : List.Forall₂ RespelledProperty members others) :
      RespelledKeyword ("properties", .object members) ("properties", .object others)

/-- The same for one property, whose name stays. -/
inductive RespelledProperty : String × Value → String × Value → Prop where
  | property (name : String) {v w : Value} (schema : Respelled v w) :
      RespelledProperty (name, v) (name, w)

end

/-- The same constant, or the same number. -/
def Value.Interchangeable (v w : Value) : Prop :=
  v = w ∨ v.SameNumber w

theorem Value.Interchangeable.of_sameScalar {v w : Value} (h : v.sameScalar w = true) :
    v.Interchangeable w := by
  rcases sameScalar_iff.mp h with hnumber | ⟨heq, -⟩
  · exact .inr hnumber
  · exact .inl heq

namespace Document

theorem toMembers_eq_map (properties : List (String × Document)) :
    toMembers properties = properties.map fun child => (child.1, child.2.toValue) := by
  induction properties with
  | nil => rfl
  | cons child rest ih =>
    obtain ⟨name, child⟩ := child
    rw [toMembers, ih, List.map_cons]

/-! ## Keyword by keyword -/

theorem forall₂_same (keywords : List (String × Value)) :
    List.Forall₂ RespelledKeyword keywords keywords :=
  List.forall₂_same.mpr fun keyword _ => .same keyword

theorem forall₂_const {v w : Option Value} (h : Option.Rel Value.Interchangeable v w) :
    List.Forall₂ RespelledKeyword (keyword "const" v) (keyword "const" w) := by
  cases h with
  | none => exact .nil
  | some hvw =>
    rcases hvw with rfl | hnumber
    · exact forall₂_same _
    · exact .cons (.const hnumber) .nil

theorem forall₂_items {v w : Option Value} (h : Option.Rel Respelled v w) :
    List.Forall₂ RespelledKeyword (keyword "items" v) (keyword "items" w) := by
  cases h with
  | none => exact .nil
  | some hvw => exact .cons (.items hvw) .nil

theorem forall₂_properties {properties others : List (String × Document)}
    (h : List.Forall₂ RespelledProperty (ascending (·.1) (toMembers properties))
      (ascending (·.1) (toMembers others))) :
    List.Forall₂ RespelledKeyword
      (keywordUnlessEmpty "properties" properties
        (.object (ascending (·.1) (toMembers properties))))
      (keywordUnlessEmpty "properties" others
        (.object (ascending (·.1) (toMembers others)))) := by
  -- the keyword is there on both sides or on neither
  have hlength : properties.length = others.length := by
    have hsorted := h.length_eq
    rwa [(ascending_perm _ _).length_eq, (ascending_perm _ _).length_eq, toMembers_eq_map,
      toMembers_eq_map, List.length_map, List.length_map] at hsorted
  unfold keywordUnlessEmpty
  cases properties with
  | nil =>
    rw [List.length_nil] at hlength
    rw [List.eq_nil_of_length_eq_zero hlength.symm]
    exact .nil
  | cons child rest =>
    cases others with
    | nil => simp at hlength
    | cons other rest' => exact .cons (.properties h) .nil

/-- The children of two nodes, made from the same names, are written alike if those of each name
are. -/
theorem forall₂_ascending {names others : List String} (hnames : names.Perm others)
    {make make' : String → Document}
    (h : ∀ name ∈ names, Respelled (make name).toValue (make' name).toValue) :
    List.Forall₂ RespelledProperty
      (ascending (·.1) (toMembers (names.map fun name => (name, make name))))
      (ascending (·.1) (toMembers (others.map fun name => (name, make' name)))) := by
  have hsorted : ∀ (make : String → Document) (names : List String),
      ascending (·.1) (toMembers (names.map fun name => (name, make name))) =
        (ascending id names).map fun name => (name, (make name).toValue) := by
    intro make names
    rw [toMembers_eq_map, List.map_map]
    exact ascending_map (fun name => (make name).toValue) names
  -- both sides are sorted now, and have the same names in the same order
  rw [hsorted, hsorted, ← ascending_eq_of_perm hnames, List.forall₂_map_left_iff,
    List.forall₂_map_right_iff, List.forall₂_same]
  intro name hname
  exact .property name (h name (mem_ascending.mp hname))

/-! ## Whole documents -/

/-- Two documents that are written alike but for constants. -/
structure Respelling (document other : Document) : Prop where
  version : document.version = other.version
  type : document.type = other.type
  properties : List.Forall₂ RespelledProperty
    (ascending (·.1) (toMembers document.properties)) (ascending (·.1) (toMembers other.properties))
  items : Option.Rel Respelled (itemsToValue document.items) (itemsToValue other.items)
  required : document.required = other.required
  format : document.format = other.format
  constant : Option.Rel Value.Interchangeable document.constant other.constant
  exemplar : document.exemplar = other.exemplar
  additionalProperties : document.additionalProperties = other.additionalProperties

theorem Respelling.toValue {document other : Document} (h : Respelling document other) :
    Respelled document.toValue other.toValue := by
  obtain ⟨version, type, properties, items, required, format, constant, exemplar, additional⟩ :=
    document
  obtain ⟨version', type', properties', items', required', format', constant', exemplar',
    additional'⟩ := other
  obtain ⟨hversion, htype, hproperties, hitems, hrequired, hformat, hconstant, hexemplar,
    hadditional⟩ := h
  dsimp only at hversion htype hproperties hitems hrequired hformat hconstant hexemplar hadditional
  subst hversion htype hrequired hformat hexemplar hadditional
  refine .schema ?_
  -- from the last keyword on: three of them may differ, and the others are the same
  refine List.rel_append ?_ (forall₂_same _)
  refine List.rel_append ?_ (forall₂_same _)
  refine List.rel_append ?_ (forall₂_const hconstant)
  refine List.rel_append ?_ (forall₂_same _)
  refine List.rel_append ?_ (forall₂_same _)
  refine List.rel_append ?_ (forall₂_items hitems)
  refine List.rel_append ?_ (forall₂_properties hproperties)
  exact forall₂_same _

end Document

end SampleSchema
