import SampleSchema.Json.Printer
import SampleSchema.Proofs.Batch
/-!
# What the text of a value tells

Fixed sequences are written like arrays, and octets like the text that they encode. `Value.plain` is
the value without these two, the one that can be read from its text: `printValue_plain` says that
both have one text.

`Value.partsInduction` is induction over one value along its parts, as `Batch.induction` is over
all values of a position.
-/

namespace SampleSchema

namespace Value

/-! ## Induction -/

/-- Induction over a value along its items and members, the null ones included. -/
theorem partsInduction {motive : Value → Prop} (null : motive .null)
    (bool : ∀ b, motive (.bool b)) (int : ∀ n, motive (.int n)) (float : ∀ x, motive (.float x))
    (str : ∀ s, motive (.str s)) (bytes : ∀ octets, motive (.bytes octets))
    (list : ∀ items, (∀ item ∈ items, motive item) → motive (.list items))
    (tuple : ∀ items, (∀ item ∈ items, motive item) → motive (.tuple items))
    (object : ∀ members : List (String × Value), (∀ member ∈ members, motive member.2) →
      motive (.object members))
    (v : Value) : motive v :=
  @Value.rec motive (fun items => ∀ item ∈ items, motive item)
    (fun members => ∀ member ∈ members, motive member.2) (fun member => motive member.2)
    null bool int float str bytes list tuple object
    (fun _ h => absurd h List.not_mem_nil)
    (fun _ _ hfirst hrest => List.forall_mem_cons.mpr ⟨hfirst, hrest⟩)
    (fun _ h => absurd h List.not_mem_nil)
    (fun _ _ hfirst hrest => List.forall_mem_cons.mpr ⟨hfirst, hrest⟩)
    (fun _ _ hvalue => hvalue) v

/-! ## Plain values -/

mutual

/-- The value that is read from the text of a value. -/
def plain : Value → Value
  | .bytes octets =>
    match Text.decodeUtf8 octets with
    | .ok cs => .str (String.ofList cs)
    | .error _ => .bytes octets
  | .list items => .list (plainItems items)
  | .tuple items => .list (plainItems items)
  | .object members => .object (plainMembers members)
  | v => v
termination_by structural v => v

def plainItems : List Value → List Value
  | [] => []
  | item :: rest => item.plain :: plainItems rest
termination_by structural items => items

def plainMembers : List (String × Value) → List (String × Value)
  | [] => []
  | (name, value) :: rest => (name, value.plain) :: plainMembers rest
termination_by structural members => members

end

theorem plainItems_eq_map (items : List Value) : plainItems items = items.map plain := by
  induction items with
  | nil => rfl
  | cons item rest ih => rw [plainItems, ih, List.map_cons]

theorem plainMembers_eq_map (members : List (String × Value)) :
    plainMembers members = members.map fun member => (member.1, member.2.plain) := by
  induction members with
  | nil => rfl
  | cons member rest ih =>
    obtain ⟨name, value⟩ := member
    rw [plainMembers, ih, List.map_cons]

@[simp] theorem plain_list (items : List Value) : (list items).plain = .list (items.map plain) := by
  rw [plain, plainItems_eq_map]

@[simp] theorem plain_tuple (items : List Value) :
    (tuple items).plain = .list (items.map plain) := by
  rw [plain, plainItems_eq_map]

@[simp] theorem plain_object (members : List (String × Value)) :
    (object members).plain = .object (members.map fun member => (member.1, member.2.plain)) := by
  rw [plain, plainMembers_eq_map]

theorem plain_bytes (octets : List UInt8) :
    (∃ cs, Text.decodeUtf8 octets = .ok cs ∧ (bytes octets).plain = .str (String.ofList cs)) ∨
      ∃ fault, Text.decodeUtf8 octets = .error fault ∧ (bytes octets).plain = .bytes octets := by
  rw [plain]
  cases Text.decodeUtf8 octets with
  | ok cs => exact .inl ⟨cs, rfl, rfl⟩
  | error fault => exact .inr ⟨fault, rfl, rfl⟩

@[simp] theorem plain_eq_null_iff {v : Value} : v.plain = .null ↔ v = .null := by
  cases v with
  | bytes octets => rcases plain_bytes octets with ⟨cs, -, h⟩ | ⟨fault, -, h⟩ <;> simp [h]
  | _ => simp [plain]

end Value

namespace Text

/-- Octets that encode no character are no octets. -/
theorem eq_nil_of_decodeFrom {octets : List UInt8} {position : Nat}
    {pending : Option PendingCharacter} (h : decodeFrom position pending octets = .ok []) :
    octets = [] ∧ pending = none := by
  induction octets generalizing position pending with
  | nil =>
    cases pending with
    | none => exact ⟨rfl, rfl⟩
    | some p => exact nomatch h
  | cons octet rest ih =>
    unfold decodeFrom at h
    dsimp only at h
    split at h
    · exact nomatch h
    · split at h
      · -- a character is complete, and stays in front
        cases hrest : decodeFrom (position + 1) none rest with
        | ok cs => simp [hrest, Except.map] at h
        | error fault => simp [hrest, Except.map] at h
      · exact absurd (ih h).2 (Option.some_ne_none _)

end Text

namespace Value

theorem truthy_plain (v : Value) : v.plain.truthy = v.truthy := by
  cases v with
  | bytes octets =>
    rcases plain_bytes octets with ⟨cs, hdecode, h⟩ | ⟨fault, -, h⟩
    · rw [h]
      cases octets with
      | nil =>
        obtain rfl := Except.ok.inj hdecode
        rfl
      | cons octet rest =>
        -- octets that are there encode something
        have hne : cs ≠ [] := by
          rintro rfl
          exact nomatch (Text.eq_nil_of_decodeFrom hdecode).1
        simpa [truthy] using hne
    · rw [h]
  | list items => simp [truthy]
  | tuple items => simp [truthy]
  | object members => simp [truthy]
  | _ => rfl

end Value

namespace Json

open Value

/-! ## One text for both -/

theorem printItems_congr {indent : List Char} {depth : Nat} {items : List Value}
    {f : Value → Value} (h : ∀ item ∈ items, printValue indent depth (f item) =
      printValue indent depth item) :
    printItems indent depth (items.map f) = printItems indent depth items := by
  induction items with
  | nil => rfl
  | cons item rest ih =>
    obtain ⟨hfirst, hrest⟩ := List.forall_mem_cons.mp h
    rw [List.map_cons, printItems, printItems, hfirst, ih hrest]

theorem printMembers_congr {indent : List Char} {depth : Nat} {members : List (String × Value)}
    {f : Value → Value} (h : ∀ member ∈ members, printValue indent depth (f member.2) =
      printValue indent depth member.2) :
    printMembers indent depth (members.map fun member => (member.1, f member.2)) =
      printMembers indent depth members := by
  induction members with
  | nil => rfl
  | cons member rest ih =>
    obtain ⟨name, value⟩ := member
    obtain ⟨hfirst, hrest⟩ := List.forall_mem_cons.mp h
    rw [List.map_cons, printMembers, printMembers, hfirst, ih hrest]

theorem printValue_plain (indent : List Char) (depth : Nat) (v : Value) :
    printValue indent depth v.plain = printValue indent depth v := by
  induction v using partsInduction generalizing depth with
  | bytes octets =>
    rcases plain_bytes octets with ⟨cs, hdecode, h⟩ | ⟨fault, -, h⟩
    · rw [h, printValue, printValue, hdecode, String.toList_ofList]
    · rw [h]
  | list items ih =>
    rw [plain_list, printValue, printValue, printItems_congr fun item hitem => ih item hitem _]
  | tuple items ih =>
    rw [plain_tuple, printValue, printValue, printItems_congr fun item hitem => ih item hitem _]
  | object members ih =>
    rw [plain_object, printValue, printValue,
      printMembers_congr fun member hmember => ih member hmember _]
  | _ => rfl

end Json

end SampleSchema
