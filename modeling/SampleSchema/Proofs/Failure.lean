import Mathlib.Data.List.Forall2
/-!
# Computations that may fail

A computation in steps succeeds only if every step does, and fails at one of them. These lemmas
take such a computation apart, so that no proof has to unfold it.
-/

namespace SampleSchema

variable {ε α β : Type}

@[simp] theorem except_ok_bind (a : α) (next : α → Except ε β) :
    (Except.ok a >>= next) = next a := rfl

theorem except_bind_eq_ok {first : Except ε α} {next : α → Except ε β} {b : β}
    (h : first >>= next = .ok b) : ∃ a, first = .ok a ∧ next a = .ok b := by
  cases first with
  | error error => exact nomatch h
  | ok a => exact ⟨a, rfl, h⟩

theorem except_bind_eq_error {first : Except ε α} {next : α → Except ε β} {error : ε}
    (h : first >>= next = .error error) :
    first = .error error ∨ ∃ a, first = .ok a ∧ next a = .error error := by
  cases first with
  | error fault => exact .inl (congrArg Except.error (Except.error.inj h))
  | ok a => exact .inr ⟨a, rfl, h⟩

/-! ## Loops -/

variable {f : α → Except ε β} {xs : List α} {ys : List β}

/-- A loop gives the result for each thing that it ran over, in order. -/
theorem forall₂_of_mapM (h : xs.mapM f = .ok ys) : List.Forall₂ (fun x y => f x = .ok y) xs ys := by
  induction xs generalizing ys with
  | nil =>
    obtain rfl := Except.ok.inj h
    exact .nil
  | cons x rest ih =>
    rw [List.mapM_cons] at h
    obtain ⟨first, hfirst, h⟩ := except_bind_eq_ok h
    obtain ⟨later, hlater, h⟩ := except_bind_eq_ok h
    obtain rfl := Except.ok.inj h
    exact .cons hfirst (ih hlater)

/-- A loop that fails does so at one of the things that it runs over. -/
theorem exists_of_mapM_eq_error {error : ε} (h : xs.mapM f = .error error) :
    ∃ x ∈ xs, f x = .error error := by
  induction xs with
  | nil => exact nomatch h
  | cons x rest ih =>
    rw [List.mapM_cons] at h
    rcases except_bind_eq_error h with hfirst | ⟨first, -, h⟩
    · exact ⟨x, List.mem_cons_self, hfirst⟩
    · rcases except_bind_eq_error h with hlater | ⟨later, -, hlast⟩
      · obtain ⟨y, hy, herror⟩ := ih hlater
        exact ⟨y, List.mem_cons_of_mem x hy, herror⟩
      · exact nomatch hlast

theorem exists_of_mem_left {R : α → β → Prop} (h : List.Forall₂ R xs ys) {x : α} (hx : x ∈ xs) :
    ∃ y ∈ ys, R x y := by
  induction h with
  | nil => exact absurd hx List.not_mem_nil
  | cons hfirst _ ih =>
    rcases List.mem_cons.mp hx with rfl | hx
    · exact ⟨_, List.mem_cons_self, hfirst⟩
    · obtain ⟨y, hy, hxy⟩ := ih hx
      exact ⟨y, List.mem_cons_of_mem _ hy, hxy⟩

theorem exists_of_mem_right {R : α → β → Prop} (h : List.Forall₂ R xs ys) {y : β} (hy : y ∈ ys) :
    ∃ x ∈ xs, R x y :=
  exists_of_mem_left (List.Forall₂.flip h) hy

/-- Two lists that go along with a third one go along with each other. -/
theorem forall₂_of_common {γ : Type} {R : α → β → Prop} {S : α → γ → Prop} {zs : List γ}
    (h : List.Forall₂ R xs ys) (h' : List.Forall₂ S xs zs) :
    List.Forall₂ (fun y z => ∃ x, R x y ∧ S x z) ys zs := by
  induction h generalizing zs with
  | nil =>
    cases h'
    exact .nil
  | cons hfirst _ ih =>
    cases h' with
    | cons hfirst' hrest' => exact .cons ⟨_, hfirst, hfirst'⟩ (ih hrest')

/-- Two lists that go along are mapped to one list if the things that go along are. -/
theorem map_eq_map_of_forall₂ {γ : Type} {R : α → β → Prop} {make : α → γ} {make' : β → γ}
    (h : List.Forall₂ R xs ys) (hmake : ∀ x ∈ xs, ∀ y, R x y → make x = make' y) :
    xs.map make = ys.map make' := by
  induction h with
  | nil => rfl
  | cons hfirst _ ih =>
    obtain ⟨hhere, hrest⟩ := List.forall_mem_cons.mp hmake
    rw [List.map_cons, List.map_cons, hhere _ hfirst, ih hrest]

theorem exists_forall₂ {R : α → β → Prop} (h : ∀ x ∈ xs, ∃ y, R x y) :
    ∃ ys, List.Forall₂ R xs ys := by
  induction xs with
  | nil => exact ⟨[], .nil⟩
  | cons x rest ih =>
    obtain ⟨hfirst, hrest⟩ := List.forall_mem_cons.mp h
    obtain ⟨y, hy⟩ := hfirst
    obtain ⟨ys, hys⟩ := ih hrest
    exact ⟨y :: ys, .cons hy hys⟩

theorem mapM_of_forall₂ (h : List.Forall₂ (fun x y => f x = .ok y) xs ys) : xs.mapM f = .ok ys := by
  induction h with
  | nil => rfl
  | cons hfirst _ ih =>
    rw [List.mapM_cons, hfirst, except_ok_bind, ih]
    rfl

end SampleSchema
