import Mathlib.Data.List.Nodup
import SampleSchema.Node
import SampleSchema.Proofs.Grouping
/-!
# What does not depend on the order of a table

A node puts types and children in as they come, but shows them by ascending name, and ranks
types by their counts. This module says that both ignore the order in which a table was
filled:

* `ascending_eq_of_perm`: sorting sees only which names there are, and for a table only what they
  lead to (`Table.ascending_eq_of_get?`).
* `dominant?_eq_of_perm`: the count that goes before all others is the same, ties included,
  because counts with distinct names are never equal in rank.
-/

namespace SampleSchema

/-! ## Ascending names -/

theorem pairwise_lt_ascending {names : List String} (hd : names.Nodup) :
    (ascending id names).Pairwise (· < ·) := by
  have hnodup : (ascending id names).Nodup := (ascending_perm id names).nodup_iff.mpr hd
  refine (pairwise_ascending id names |>.and hnodup).imp ?_
  intro a b hab
  obtain ⟨hle, hne⟩ := hab
  exact String.not_le.mp fun hge => hne (String.le_antisymm hle hge)

theorem ascending_eq_of_perm {names others : List String} (h : names.Perm others) :
    ascending id names = ascending id others := by
  have hperm : (ascending id names).Perm (ascending id others) :=
    ((ascending_perm id names).trans h).trans (ascending_perm id others).symm
  refine hperm.eq_of_pairwise ?_ (pairwise_ascending id names) (pairwise_ascending id others)
  exact fun a b _ _ hab hba => String.le_antisymm hab hba

/-- Tables with the same look-ups are sorted alike. -/
theorem Table.ascending_eq_of_get? {α : Type} {table other : Table α} (hd : table.names.Nodup)
    (hd' : other.names.Nodup) (h : ∀ name, table.get? name = other.get? name) :
    ascending (·.1) table = ascending (·.1) other := by
  have hmem : ∀ entry, entry ∈ table ↔ entry ∈ other := by
    intro entry
    constructor
    · intro hin
      exact mem_of_get?_eq_some ((h entry.1).symm.trans (get?_eq_some_of_mem hd hin))
    · intro hin
      exact mem_of_get?_eq_some ((h entry.1).trans (get?_eq_some_of_mem hd' hin))
  have hperm : (ascending (·.1) table).Perm (ascending (·.1) other) :=
    ((ascending_perm _ table).trans
      ((List.perm_ext_iff_of_nodup (.of_map _ hd) (.of_map _ hd')).mpr hmem)).trans
      (ascending_perm _ other).symm
  refine hperm.eq_of_pairwise ?_ (pairwise_ascending _ table) (pairwise_ascending _ other)
  -- entries of one name are one entry
  intro a b ha hb hab hba
  have hname : a.1 = b.1 := String.le_antisymm hab hba
  have hget := get?_eq_some_of_mem hd (mem_ascending.mp ha)
  rw [h, hname, get?_eq_some_of_mem hd' (mem_ascending.mp hb)] at hget
  exact Prod.ext hname (Option.some.inj hget).symm

theorem insertAscending_map {α : Type} (make : String → α) (name : String)
    (names : List String) :
    insertAscending (·.1) (name, make name) (names.map fun name => (name, make name)) =
      (insertAscending id name names).map fun name => (name, make name) := by
  induction names with
  | nil => rfl
  | cons other rest ih =>
    rw [List.map_cons, insertAscending, insertAscending]
    show (if name ≤ other then _ else _) = List.map _ (if name ≤ other then _ else _)
    split
    · rfl
    · rw [ih, List.map_cons]

/-- A table that is computed from its names is sorted by sorting the names. -/
theorem ascending_map {α : Type} (make : String → α) (names : List String) :
    ascending (·.1) (names.map fun name => (name, make name)) =
      (ascending id names).map fun name => (name, make name) := by
  induction names with
  | nil => rfl
  | cons name rest ih => rw [List.map_cons, ascending, ih, insertAscending_map, ascending]

theorem eraseDups_perm {names others : List String} (h : names.Perm others) :
    names.eraseDups.Perm others.eraseDups := by
  refine (List.perm_ext_iff_of_nodup (nodup_eraseDups names) (nodup_eraseDups others)).mpr ?_
  intro name
  rw [List.mem_eraseDups, List.mem_eraseDups, h.mem_iff]

namespace Node

/-! ## The count that goes before all others -/

theorem outranks_iff {a b : String × Nat} :
    outranks a b = true ↔ b.2 < a.2 ∨ a.2 = b.2 ∧ a.1 < b.1 := by
  simp [outranks]

theorem outranks_trans {a b c : String × Nat} (hab : outranks a b = true)
    (hbc : outranks b c = true) : outranks a c = true := by
  rw [outranks_iff] at hab hbc ⊢
  rcases hab with hab | ⟨heq, hab⟩
  · rcases hbc with hbc | ⟨heq', -⟩ <;> omega
  · rcases hbc with hbc | ⟨heq', hbc⟩
    · omega
    · exact .inr ⟨by omega, String.lt_trans hab hbc⟩

theorem outranks_asymm {a b : String × Nat} (hab : outranks a b = true) :
    ¬ outranks b a = true := by
  intro hba
  rw [outranks_iff] at hab hba
  rcases hab with hab | ⟨heq, hab⟩
  · omega
  · rcases hba with hba | ⟨-, hba⟩
    · omega
    · exact String.lt_asymm hab hba

theorem outranks_total {a b : String × Nat} (hne : a.1 ≠ b.1) (h : ¬ outranks a b = true) :
    outranks b a = true := by
  rw [outranks_iff] at h ⊢
  rcases Nat.lt_trichotomy a.2 b.2 with hlt | heq | hgt
  · exact .inl hlt
  · refine .inr ⟨heq.symm, ?_⟩
    have hle : b.1 ≤ a.1 := String.not_lt.mp fun hlt => h (.inr ⟨heq, hlt⟩)
    exact String.not_le.mp fun hge => hne (String.le_antisymm hge hle)
  · exact absurd (.inl hgt) h

theorem dominant?_eq_none_iff {counts : List (String × Nat)} :
    dominant? counts = none ↔ counts = [] := by
  cases counts with
  | nil => simp [dominant?]
  | cons count rest =>
    unfold dominant?
    split
    · split <;> simp
    · simp

theorem mem_of_dominant?_eq_some {counts : List (String × Nat)} {best : String × Nat}
    (h : dominant? counts = some best) : best ∈ counts := by
  induction counts generalizing best with
  | nil => simp [dominant?] at h
  | cons count rest ih =>
    unfold dominant? at h
    split at h
    · rename_i other hother
      split at h
      · obtain rfl := Option.some.inj h
        exact List.mem_cons_of_mem _ (ih hother)
      · obtain rfl := Option.some.inj h
        exact List.mem_cons_self
    · obtain rfl := Option.some.inj h
      exact List.mem_cons_self

/-- Where names are distinct, the dominant count does go before all others. -/
theorem outranks_of_dominant?_eq_some {counts : List (String × Nat)} {best count : String × Nat}
    (hd : (Table.names counts).Nodup) (h : dominant? counts = some best) (hc : count ∈ counts)
    (hne : count ≠ best) : outranks best count = true := by
  induction counts generalizing best with
  | nil => simp at hc
  | cons head rest ih =>
    obtain ⟨hhead, hrest⟩ := List.nodup_cons.mp hd
    unfold dominant? at h
    split at h
    · rename_i other hother
      have hmem : other ∈ rest := mem_of_dominant?_eq_some hother
      have hdiff : other.1 ≠ head.1 := fun heq =>
        hhead (List.mem_map.mpr ⟨other, hmem, heq⟩)
      split at h
      · -- the best of the rest stays the best
        rename_i hout
        obtain rfl := Option.some.inj h
        rcases List.mem_cons.mp hc with rfl | hc
        · exact hout
        · exact ih hrest hother hc hne
      · -- the head goes before the best of the rest, and so before all of it
        rename_i hnot
        obtain rfl := Option.some.inj h
        have hfirst : outranks head other = true := outranks_total hdiff hnot
        rcases List.mem_cons.mp hc with rfl | hc
        · exact absurd rfl hne
        · by_cases hco : count = other
          · rw [hco]
            exact hfirst
          · exact outranks_trans hfirst (ih hrest hother hc hco)
    · rename_i hnone
      obtain rfl := Option.some.inj h
      rw [dominant?_eq_none_iff.mp hnone] at hc
      exact absurd (List.mem_singleton.mp hc) hne

theorem dominant?_eq_of_perm {counts others : List (String × Nat)}
    (hd : (Table.names counts).Nodup) (h : counts.Perm others) :
    dominant? counts = dominant? others := by
  have hd' : (Table.names others).Nodup := (h.map _).nodup_iff.mp hd
  cases hc : dominant? counts with
  | none =>
    obtain rfl := dominant?_eq_none_iff.mp hc
    obtain rfl : others = [] := h.symm.eq_nil
    rfl
  | some best =>
    cases ho : dominant? others with
    | none =>
      obtain rfl := dominant?_eq_none_iff.mp ho
      simp [h.eq_nil, dominant?] at hc
    | some other =>
      -- were they two, each would go before the other
      by_cases heq : best = other
      · rw [heq]
      · have hbest : best ∈ others := h.mem_iff.mp (mem_of_dominant?_eq_some hc)
        have hother : other ∈ counts := h.mem_iff.mpr (mem_of_dominant?_eq_some ho)
        exact absurd (outranks_of_dominant?_eq_some hd' ho hbest heq)
          (outranks_asymm (outranks_of_dominant?_eq_some hd hc hother (Ne.symm heq)))

theorem mem_names_of_primaryType?_eq_some {node : Node} {type : String}
    (h : node.primaryType? = some type) : type ∈ Table.names node.types := by
  obtain ⟨best, hbest, rfl⟩ := Option.map_eq_some_iff.mp h
  exact List.mem_map.mpr ⟨best, mem_of_dominant?_eq_some hbest, rfl⟩

theorem primaryType?_eq_none_iff {node : Node} :
    node.primaryType? = none ↔ node.types = [] := by
  rw [primaryType?, Option.map_eq_none_iff, dominant?_eq_none_iff]

theorem mem_observedTypes {node : Node} {type : String} :
    type ∈ node.observedTypes ↔ type ∈ Table.names node.types ∧ type ≠ "null" := by
  simp [observedTypes, PrimitiveType.name]

end Node

end SampleSchema
