/-!
# Order by name, and tables

A table is a list of named entries in the order in which the names were first put in. A name
occurs once: putting it in again changes its entry and keeps its place. Names are compared by
code points, character by character.
-/

namespace SampleSchema

/-! ## Ascending order -/

/-- Inserts a thing before the first one whose name is not smaller. -/
def insertAscending {α : Type} (name : α → String) (x : α) : List α → List α
  | [] => [x]
  | y :: rest => if name x ≤ name y then x :: y :: rest else y :: insertAscending name x rest

/-- The things by ascending name; those with one name keep their order. -/
def ascending {α : Type} (name : α → String) : List α → List α
  | [] => []
  | x :: rest => insertAscending name x (ascending name rest)

theorem insertAscending_perm {α : Type} (name : α → String) (x : α) (xs : List α) :
    (insertAscending name x xs).Perm (x :: xs) := by
  induction xs with
  | nil => exact .refl _
  | cons y rest ih =>
    rw [insertAscending]
    split
    · exact .refl _
    · exact (ih.cons y).trans (.swap x y rest)

/-- Sorting loses nothing and adds nothing. -/
theorem ascending_perm {α : Type} (name : α → String) (xs : List α) :
    (ascending name xs).Perm xs := by
  induction xs with
  | nil => exact .refl _
  | cons x rest ih => exact (insertAscending_perm name x _).trans (ih.cons x)

@[simp] theorem mem_ascending {α : Type} {name : α → String} {x : α} {xs : List α} :
    x ∈ ascending name xs ↔ x ∈ xs :=
  (ascending_perm name xs).mem_iff

theorem pairwise_insertAscending {α : Type} {name : α → String} {x : α} {xs : List α}
    (h : xs.Pairwise fun a b => name a ≤ name b) :
    (insertAscending name x xs).Pairwise fun a b => name a ≤ name b := by
  induction xs with
  | nil => exact List.pairwise_singleton _ x
  | cons y rest ih =>
    obtain ⟨below, sorted⟩ := List.pairwise_cons.mp h
    rw [insertAscending]
    split
    · rename_i hxy
      refine List.pairwise_cons.mpr ⟨fun b hb => ?_, h⟩
      rcases List.mem_cons.mp hb with rfl | hb
      · exact hxy
      · exact String.le_trans hxy (below b hb)
    · rename_i hxy
      refine List.pairwise_cons.mpr ⟨fun b hb => ?_, ih sorted⟩
      rcases List.mem_cons.mp ((insertAscending_perm name x rest).mem_iff.mp hb) with rfl | hb
      · exact (String.le_total _ _).resolve_left hxy
      · exact below b hb

/-- Sorted things have ascending names. -/
theorem pairwise_ascending {α : Type} (name : α → String) (xs : List α) :
    (ascending name xs).Pairwise fun a b => name a ≤ name b := by
  induction xs with
  | nil => exact .nil
  | cons x rest ih => exact pairwise_insertAscending ih

/-! ## Tables -/

/-- Named entries in the order of their first insertion. -/
abbrev Table (α : Type) := List (String × α)

namespace Table

variable {α : Type}

/-- The entry of a name. -/
def get? (name : String) : Table α → Option α
  | [] => none
  | (key, entry) :: rest => if key = name then some entry else get? name rest

/-- Changes the entry of a name; the change sees the entry, if there is one. -/
def alter (name : String) (change : Option α → α) : Table α → Table α
  | [] => [(name, change none)]
  | (key, entry) :: rest =>
    if key = name then (key, change (some entry)) :: rest
    else (key, entry) :: alter name change rest

/-- Puts an entry in, at the place of the name if it has one and at the end otherwise. -/
def put (name : String) (entry : α) (table : Table α) : Table α :=
  table.alter name fun _ => entry

/-- The table of these entries: of two entries with one name the last counts, at the place
of the first. -/
def ofEntries (entries : List (String × α)) : Table α :=
  entries.foldl (fun table (name, entry) => table.put name entry) []

def names (table : Table α) : List String :=
  table.map (·.1)

/-! ## Looking up after a change -/

theorem get?_eq_none_iff {name : String} {table : Table α} :
    table.get? name = none ↔ name ∉ table.names := by
  induction table with
  | nil => simp [get?, names]
  | cons entry rest ih =>
    obtain ⟨key, entry⟩ := entry
    by_cases h : key = name
    · simp [get?, names, h]
    · simpa [get?, names, h, Ne.symm h] using ih

@[simp] theorem get?_alter_self (name : String) (change : Option α → α) (table : Table α) :
    (table.alter name change).get? name = some (change (table.get? name)) := by
  induction table with
  | nil => simp [alter, get?]
  | cons entry rest ih =>
    obtain ⟨key, entry⟩ := entry
    by_cases h : key = name
    · simp [alter, get?, h]
    · simpa [alter, get?, h] using ih

theorem get?_alter_of_ne {name other : String} (h : other ≠ name) (change : Option α → α)
    (table : Table α) : (table.alter name change).get? other = table.get? other := by
  induction table with
  | nil => simp [alter, get?, Ne.symm h]
  | cons entry rest ih =>
    obtain ⟨key, entry⟩ := entry
    by_cases hk : key = name
    · subst hk
      simp [alter, get?, Ne.symm h]
    · simp only [alter, hk, if_false, get?, ih]

@[simp] theorem names_nil : names ([] : Table α) = [] := rfl

@[simp] theorem names_cons (key : String) (entry : α) (rest : Table α) :
    names ((key, entry) :: rest) = key :: names rest := rfl

@[simp] theorem names_map {β : Type} (f : α → β) (table : Table α) :
    names (table.map fun entry => (entry.1, f entry.2)) = names table := by
  rw [names, names, List.map_map]
  rfl

/-- A change keeps the order of the names, and a new name comes last. -/
theorem names_alter (name : String) (change : Option α → α) (table : Table α) :
    (table.alter name change).names =
      if name ∈ table.names then table.names else table.names ++ [name] := by
  induction table with
  | nil => simp [alter]
  | cons entry rest ih =>
    obtain ⟨key, entry⟩ := entry
    by_cases h : key = name
    · simp [alter, h]
    · rw [alter, if_neg h, names_cons, names_cons, ih]
      by_cases hm : name ∈ names rest
      · rw [if_pos hm, if_pos (List.mem_cons_of_mem key hm)]
      · rw [if_neg hm, if_neg fun hk => (List.mem_cons.mp hk).elim (Ne.symm h) hm,
          List.cons_append]

theorem nodup_names_alter {name : String} {change : Option α → α} {table : Table α}
    (h : table.names.Nodup) : (table.alter name change).names.Nodup := by
  rw [names_alter]
  split
  · exact h
  · rename_i hn
    refine List.nodup_append.mpr ⟨h, by simp, fun a ha b hb => ?_⟩
    rw [List.mem_singleton.mp hb]
    exact fun hab => hn (hab ▸ ha)

/-! ## Tables of entries -/

/-- What holds of all entries, and of the changed one, holds of all entries afterwards. -/
theorem forall_mem_alter {P : α → Prop} {name : String} {change : Option α → α} {table : Table α}
    (hchange : P (change (table.get? name))) (h : ∀ other ∈ table, P other.2) :
    ∀ other ∈ table.alter name change, P other.2 := by
  induction table with
  | nil => exact List.forall_mem_singleton.mpr hchange
  | cons first rest ih =>
    obtain ⟨key, other⟩ := first
    obtain ⟨hfirst, hrest⟩ := List.forall_mem_cons.mp h
    rw [get?] at hchange
    rw [alter]
    split
    · rename_i hkey
      rw [if_pos hkey] at hchange
      exact List.forall_mem_cons.mpr ⟨hchange, hrest⟩
    · rename_i hkey
      rw [if_neg hkey] at hchange
      exact List.forall_mem_cons.mpr ⟨hfirst, ih hchange hrest⟩

theorem forall_mem_ofEntries {P : α → Prop} {entries : List (String × α)}
    (h : ∀ entry ∈ entries, P entry.2) : ∀ entry ∈ ofEntries entries, P entry.2 := by
  have hfold : ∀ (entries : List (String × α)) (table : Table α),
      (∀ entry ∈ entries, P entry.2) → (∀ entry ∈ table, P entry.2) →
        ∀ entry ∈ entries.foldl (fun table (name, entry) => table.put name entry) table,
          P entry.2 := by
    intro entries
    induction entries with
    | nil => exact fun table _ htable => htable
    | cons first rest ih =>
      intro table hall htable
      obtain ⟨hfirst, hrest⟩ := List.forall_mem_cons.mp hall
      exact ih _ hrest (forall_mem_alter hfirst htable)
  exact hfold entries [] h nofun

theorem nodup_names_ofEntries (entries : List (String × α)) : (ofEntries entries).names.Nodup := by
  have hfold : ∀ (entries : List (String × α)) (table : Table α), table.names.Nodup →
      (entries.foldl (fun table (name, entry) => table.put name entry) table).names.Nodup := by
    intro entries
    induction entries with
    | nil => exact fun table htable => htable
    | cons first rest ih => exact fun table htable => ih _ (nodup_names_alter htable)
  exact hfold entries [] .nil

theorem put_of_notMem {name : String} (entry : α) {table : Table α} (h : name ∉ table.names) :
    table.put name entry = table ++ [(name, entry)] := by
  induction table with
  | nil => rfl
  | cons first rest ih =>
    obtain ⟨key, other⟩ := first
    rw [names_cons, List.mem_cons, not_or] at h
    rw [put, alter, if_neg (Ne.symm h.1)]
    exact congrArg _ (ih h.2)

theorem foldl_put_of_nodup {entries table : Table α} (h : (names (table ++ entries)).Nodup) :
    entries.foldl (fun table (name, entry) => table.put name entry) table = table ++ entries := by
  induction entries generalizing table with
  | nil => exact (List.append_nil table).symm
  | cons first rest ih =>
    obtain ⟨name, entry⟩ := first
    have hname : name ∉ table.names := by
      rw [names, List.map_append, List.nodup_append] at h
      exact fun hmem => h.2.2 name hmem name List.mem_cons_self rfl
    rw [List.foldl_cons]
    dsimp only
    rw [put_of_notMem entry hname, ih (by simpa using h)]
    exact List.append_assoc table [(name, entry)] rest

/-- Entries with distinct names are a table already. -/
theorem ofEntries_of_nodup {entries : List (String × α)} (h : (names entries).Nodup) :
    ofEntries entries = entries :=
  foldl_put_of_nodup h

end Table

end SampleSchema
