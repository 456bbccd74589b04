import Mathlib.Data.List.Induction
import SampleSchema.Table
/-!
# Grouping named entries

A node keeps one count for each type and one child for each property, both in tables that grow
entry by entry: the entry of a name is changed in place, and a new name goes to the end. This
module says what such a table holds after all entries came in, without replaying them: its
names are the names of the entries in the order of first sight, and each name has what its own
entries, in their order, make of a common start.

* `gather` is the growing table, `valuesOf` the entries of one name.
* `getD_get?_gather` is the entry of a name after any number of entries, from any table.
* `gather_nil` is the whole table, from the empty one.
-/

namespace SampleSchema

/-! ## Names in order of first sight -/

theorem eraseDups_concat (names : List String) (name : String) :
    (names ++ [name]).eraseDups =
      if name ∈ names then names.eraseDups else names.eraseDups ++ [name] := by
  rw [List.eraseDups_append]
  by_cases h : name ∈ names
  · simp [List.removeAll, h]
  · simp [List.removeAll, h, List.eraseDups_cons]

theorem nodup_eraseDups (names : List String) : names.eraseDups.Nodup := by
  -- from the end, so that `eraseDups_concat` describes the step
  induction names using List.reverseRecOn with
  | nil => simp
  | append_singleton rest name ih =>
    rw [eraseDups_concat]
    split
    · exact ih
    · rename_i hnew
      refine List.nodup_append.mpr ⟨ih, by simp, ?_⟩
      intro a ha b hb
      rw [List.mem_singleton.mp hb]
      rintro rfl
      exact hnew (List.mem_eraseDups.mp ha)

namespace Table

variable {α β : Type}

/-! ## A table and its look-ups -/

theorem get?_map_names (make : String → β) (name : String) (names : List String) :
    get? name (names.map fun name => (name, make name)) =
      if name ∈ names then some (make name) else none := by
  induction names with
  | nil => rfl
  | cons key rest ih =>
    by_cases h : key = name
    · subst h
      simp [get?]
    · rw [List.map_cons, get?, if_neg h, ih]
      simp [Ne.symm h]

theorem isSome_get?_iff {name : String} {table : Table α} :
    (table.get? name).isSome ↔ name ∈ table.names := by
  rw [← Decidable.not_iff_not, ← get?_eq_none_iff]
  simp

theorem mem_of_get?_eq_some {name : String} {entry : α} {table : Table α}
    (h : table.get? name = some entry) : (name, entry) ∈ table := by
  induction table with
  | nil => simp [get?] at h
  | cons head rest ih =>
    obtain ⟨key, value⟩ := head
    by_cases hk : key = name
    · rw [get?, if_pos hk] at h
      obtain rfl := Option.some.inj h
      rw [hk]
      exact List.mem_cons_self
    · rw [get?, if_neg hk] at h
      exact List.mem_cons_of_mem _ (ih h)

/-- Where names are distinct, an entry of the table is the one that is looked up. -/
theorem get?_eq_some_of_mem {name : String} {entry : α} {table : Table α}
    (hd : table.names.Nodup) (h : (name, entry) ∈ table) : table.get? name = some entry := by
  induction table with
  | nil => simp at h
  | cons head rest ih =>
    obtain ⟨key, value⟩ := head
    rw [names_cons] at hd
    obtain ⟨hkey, hrest⟩ := List.nodup_cons.mp hd
    rcases List.mem_cons.mp h with heq | hmem
    · obtain ⟨rfl, rfl⟩ := Prod.mk.inj heq
      simp [get?]
    · have hne : key ≠ name := by
        rintro rfl
        exact hkey (List.mem_map.mpr ⟨(key, entry), hmem, rfl⟩)
      rw [get?, if_neg hne]
      exact ih hrest hmem

/-- A table with distinct names is determined by its names and its look-ups. -/
theorem eq_map_names (default : α) {table : Table α} (hd : table.names.Nodup) :
    table = table.names.map fun name => (name, (table.get? name).getD default) := by
  rw [names, List.map_map]
  refine (List.map_id table).symm.trans (List.map_congr_left ?_)
  intro entry hmem
  have hget : table.get? entry.1 = some entry.2 := get?_eq_some_of_mem hd hmem
  simp [hget]

/-! ## Gathering entries -/

/-- What the entries of one name hold, in their order. -/
def valuesOf (name : String) (entries : List (String × α)) : List α :=
  (entries.filter fun entry => entry.1 = name).map (·.2)

/-- The table after some entries came in. Each changes what its name had so far, or `init` if
the name is new. -/
def gather (init : β) (step : β → α → β) (entries : List (String × α)) (table : Table β) :
    Table β :=
  entries.foldl (fun table entry => table.alter entry.1 fun old => step (old.getD init) entry.2)
    table

@[simp] theorem valuesOf_nil (name : String) : valuesOf name ([] : List (String × α)) = [] := rfl

theorem valuesOf_append (name : String) (entries more : List (String × α)) :
    valuesOf name (entries ++ more) = valuesOf name entries ++ valuesOf name more := by
  simp [valuesOf]

theorem valuesOf_eq_nil_iff {name : String} {entries : List (String × α)} :
    valuesOf name entries = [] ↔ name ∉ names entries := by
  simp only [valuesOf, names, List.map_eq_nil_iff, List.filter_eq_nil_iff, List.mem_map,
    decide_eq_true_eq, not_exists, not_and]

theorem mem_valuesOf {name : String} {value : α} {entries : List (String × α)} :
    value ∈ valuesOf name entries ↔ (name, value) ∈ entries := by
  simp [valuesOf]

variable (init : β) (step : β → α → β)

theorem gather_append (entries more : List (String × α)) (table : Table β) :
    gather init step (entries ++ more) table =
      gather init step more (gather init step entries table) := by
  simp [gather, List.foldl_append]

theorem gather_cons (entry : String × α) (rest : List (String × α)) (table : Table β) :
    gather init step (entry :: rest) table =
      gather init step rest
        (table.alter entry.1 fun old => step (old.getD init) entry.2) := rfl

/-- What a name has after some entries: its own entries, and no others, change it. -/
theorem getD_get?_gather (name : String) (entries : List (String × α)) (table : Table β) :
    ((gather init step entries table).get? name).getD init =
      (valuesOf name entries).foldl step ((table.get? name).getD init) := by
  induction entries generalizing table with
  | nil => rfl
  | cons entry rest ih =>
    obtain ⟨key, value⟩ := entry
    rw [gather_cons, ih]
    by_cases h : key = name
    · subst h
      simp [valuesOf]
    · -- an entry of another name is passed over on both sides
      rw [get?_alter_of_ne (Ne.symm h)]
      simp [valuesOf, h]

theorem mem_names_gather (name : String) (entries : List (String × α)) (table : Table β) :
    name ∈ (gather init step entries table).names ↔
      name ∈ table.names ∨ name ∈ names entries := by
  induction entries generalizing table with
  | nil => simp [gather]
  | cons entry rest ih =>
    rw [gather_cons, ih, names_alter, names_cons]
    by_cases h : entry.1 ∈ table.names
    · rw [if_pos h, List.mem_cons]
      constructor
      · exact Or.imp_right Or.inr
      · rintro (hold | rfl | hrest)
        · exact .inl hold
        · exact .inl h
        · exact .inr hrest
    · rw [if_neg h, List.mem_append, List.mem_singleton, List.mem_cons, or_assoc]

/-- A name has an entry afterwards exactly if it had one or one came in, and then it is the
one that `getD_get?_gather` describes. -/
theorem get?_gather (name : String) (entries : List (String × α)) (table : Table β) :
    (gather init step entries table).get? name =
      if valuesOf name entries = [] then table.get? name
      else some ((valuesOf name entries).foldl step ((table.get? name).getD init)) := by
  have hvalue := getD_get?_gather init step name entries table
  have hnames := mem_names_gather init step name entries table
  rw [← isSome_get?_iff, ← isSome_get?_iff] at hnames
  split
  · -- no entry came in, so the name is there afterwards exactly if it was there before
    rename_i hnone
    rw [hnone, List.foldl_nil] at hvalue
    have hsome : ((gather init step entries table).get? name).isSome ↔
        (table.get? name).isSome := by
      rw [hnames]
      exact or_iff_left (valuesOf_eq_nil_iff.mp hnone)
    cases hg : (gather init step entries table).get? name <;>
      cases ht : table.get? name <;> simp_all
  · -- an entry came in, so the name is there, and has what `hvalue` says
    rename_i hsome
    have hin : name ∈ names entries :=
      Decidable.byContradiction fun hout => hsome (valuesOf_eq_nil_iff.mpr hout)
    obtain ⟨value, hget⟩ := Option.isSome_iff_exists.mp (hnames.mpr (.inr hin))
    rw [hget, Option.getD_some] at hvalue
    rw [hget, hvalue]

theorem nodup_names_gather (entries : List (String × α)) {table : Table β}
    (h : table.names.Nodup) : (gather init step entries table).names.Nodup := by
  induction entries generalizing table with
  | nil => exact h
  | cons entry rest ih => exact ih (nodup_names_alter h)

theorem names_gather_nil (entries : List (String × α)) :
    (gather init step entries ([] : Table β)).names = (names entries).eraseDups := by
  -- from the end: the last entry adds its name, unless an earlier one did
  induction entries using List.reverseRecOn with
  | nil => rfl
  | append_singleton rest entry ih =>
    have hnames : names (rest ++ [entry]) = names rest ++ [entry.1] := by
      simp [names]
    rw [gather_append, gather_cons, hnames, eraseDups_concat]
    show names (alter entry.1 _ _) = _
    rw [names_alter, ih]
    simp only [List.mem_eraseDups]

/-- From the empty table, every name has what its own entries make of the start. -/
theorem gather_nil (entries : List (String × α)) :
    gather init step entries ([] : Table β) =
      (names entries).eraseDups.map fun name =>
        (name, (valuesOf name entries).foldl step init) := by
  have hnames := names_gather_nil init step entries
  have hd : (gather init step entries ([] : Table β)).names.Nodup := by
    rw [hnames]
    exact nodup_eraseDups _
  rw [eq_map_names init hd, hnames]
  refine List.map_congr_left ?_
  intro name _
  rw [getD_get?_gather]
  rfl

/-- A table of entries has their names, in the order of first sight. -/
theorem names_ofEntries (entries : List (String × α)) :
    (ofEntries entries).names = (names entries).eraseDups := by
  cases entries with
  | nil => rfl
  | cons first rest =>
    -- putting an entry in is gathering with a step that forgets what was there
    exact names_gather_nil first.2 (fun _ entry => entry) (first :: rest)

/-! ## Gathering behind a view

A view shows less of each entry than there is. If a step keeps alike what the view shows alike,
then so does gathering, from tables that look alike. -/

variable {γ : Type} {view : String → β → γ}

theorem map_alter_congr {name : String} {change : Option β → β}
    (hchange : ∀ a b : Option β, a.map (view name) = b.map (view name) →
      view name (change a) = view name (change b))
    {table other : Table β}
    (h : table.map (fun entry => (entry.1, view entry.1 entry.2)) =
      other.map fun entry => (entry.1, view entry.1 entry.2)) :
    (table.alter name change).map (fun entry => (entry.1, view entry.1 entry.2)) =
      (other.alter name change).map fun entry => (entry.1, view entry.1 entry.2) := by
  induction table generalizing other with
  | nil =>
    obtain rfl := List.map_eq_nil_iff.mp h.symm
    rfl
  | cons head rest ih =>
    obtain ⟨key, entry⟩ := head
    cases other with
    | nil => simp at h
    | cons head' rest' =>
      -- the tables look alike, so their first entries have one name
      obtain ⟨key', entry'⟩ := head'
      rw [List.map_cons, List.map_cons, List.cons.injEq, Prod.mk.injEq] at h
      obtain ⟨⟨rfl, hentry⟩, hrest⟩ := h
      by_cases hk : key = name
      · subst hk
        have hnew := hchange (some entry) (some entry') (congrArg some hentry)
        simp [alter, hnew, hrest]
      · rw [alter, alter, if_neg hk, if_neg hk, List.map_cons, List.map_cons, ih hrest, hentry]

theorem map_gather_congr {entries : List (String × α)}
    (hstep : ∀ name a b x, view name a = view name b → view name (step a x) = view name (step b x))
    {table other : Table β}
    (h : table.map (fun entry => (entry.1, view entry.1 entry.2)) =
      other.map fun entry => (entry.1, view entry.1 entry.2)) :
    (gather init step entries table).map (fun entry => (entry.1, view entry.1 entry.2)) =
      (gather init step entries other).map fun entry => (entry.1, view entry.1 entry.2) := by
  induction entries generalizing table other with
  | nil => exact h
  | cons entry rest ih =>
    refine ih (map_alter_congr ?_ h)
    intro a b hab
    refine hstep _ _ _ _ ?_
    cases a <;> cases b <;> simp_all

end Table

end SampleSchema
