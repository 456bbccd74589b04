/-!
# Cutting a text at a character

Cuts lose nothing but the separators: joining the parts with them gives the text back.
-/

namespace SampleSchema.Text

/-- The parts of a text between the separators, one more than there are separators. -/
def split (separator : Char) : List Char → List (List Char)
  | [] => [[]]
  | c :: rest =>
    if c = separator then [] :: split separator rest
    else
      match split separator rest with
      | [] => [[c]]
      | part :: more => (c :: part) :: more

theorem split_ne_nil (separator : Char) (cs : List Char) : split separator cs ≠ [] := by
  cases cs with
  | nil => simp [split]
  | cons c rest =>
    rw [split]
    split
    · simp
    · split <;> simp

/-- The parts with the separators between them are the text. -/
theorem intercalate_split (separator : Char) (cs : List Char) :
    [separator].intercalate (split separator cs) = cs := by
  induction cs with
  | nil => rfl
  | cons c rest ih =>
    rw [split]
    cases h : split separator rest with
    | nil => exact absurd h (split_ne_nil separator rest)
    | cons part more =>
      rw [h] at ih
      by_cases hc : c = separator
      · subst hc
        simpa [List.intercalate_cons_cons] using ih
      · cases more with
        | nil => simpa [hc] using ih
        | cons next more => simpa [hc, List.intercalate_cons_cons] using ih

/-! ## Cutting behind a run -/

/-- A run of characters of one kind ends where one of another kind stands. -/
theorem takeWhile_append_cons {p : Char → Bool} {before behind : List Char} {c : Char}
    (hbefore : ∀ c ∈ before, p c = true) (hc : p c = false) :
    (before ++ c :: behind).takeWhile p = before := by
  rw [List.takeWhile_append_of_pos hbefore, List.takeWhile_cons_of_neg (by simp [hc]),
    List.append_nil]

theorem dropWhile_append_cons {p : Char → Bool} {before behind : List Char} {c : Char}
    (hbefore : ∀ c ∈ before, p c = true) (hc : p c = false) :
    (before ++ c :: behind).dropWhile p = c :: behind := by
  rw [List.dropWhile_append_of_pos hbefore, List.dropWhile_cons_of_neg (by simp [hc])]

/-! ## Cutting once -/

/-- What stands before the first separator and behind it, if there is one. -/
def cutFirst? (separator : Char) : List Char → Option (List Char × List Char)
  | [] => none
  | c :: rest =>
    if c = separator then some ([], rest)
    else (cutFirst? separator rest).map fun (before, behind) => (c :: before, behind)

/-- What stands before the last separator and behind it, if there is one. -/
def cutLast? (separator : Char) (cs : List Char) : Option (List Char × List Char) :=
  (cutFirst? separator cs.reverse).map fun (behind, before) => (before.reverse, behind.reverse)

theorem cutFirst?_eq_none_iff {separator : Char} {cs : List Char} :
    cutFirst? separator cs = none ↔ separator ∉ cs := by
  induction cs with
  | nil => simp [cutFirst?]
  | cons c rest ih =>
    by_cases h : c = separator
    · simp [cutFirst?, h]
    · simp [cutFirst?, h, Ne.symm h, ih]

/-- A text is cut at its first separator: none stands before the cut. -/
theorem cutFirst?_eq_some_iff {separator : Char} {cs before behind : List Char} :
    cutFirst? separator cs = some (before, behind) ↔
      separator ∉ before ∧ cs = before ++ separator :: behind := by
  induction cs generalizing before with
  | nil => simp [cutFirst?]
  | cons c rest ih =>
    by_cases h : c = separator
    · cases before with
      | nil => simp [cutFirst?, h]
      | cons b before =>
        simp only [cutFirst?, h, if_true]
        constructor
        · intro hc
          simp at hc
        · rintro ⟨hb, hc⟩
          simp only [List.cons_append, List.cons.injEq] at hc
          exact absurd (hc.1 ▸ List.mem_cons_self) hb
    · cases before with
      | nil =>
        simp only [cutFirst?, h, if_false]
        constructor
        · intro hc
          simp at hc
        · rintro ⟨-, hc⟩
          simp only [List.nil_append, List.cons.injEq] at hc
          exact absurd hc.1 h
      | cons b before =>
        simp only [cutFirst?, h, if_false, Option.map_eq_some_iff, Prod.mk.injEq,
          List.cons.injEq, List.cons_append, List.mem_cons, not_or]
        constructor
        · rintro ⟨⟨u, v⟩, huv, ⟨rfl, rfl⟩, rfl⟩
          obtain ⟨hu, hr⟩ := ih.mp huv
          exact ⟨⟨Ne.symm h, hu⟩, rfl, hr⟩
        · rintro ⟨⟨-, hb⟩, rfl, hr⟩
          exact ⟨(before, behind), ih.mpr ⟨hb, hr⟩, ⟨rfl, rfl⟩, rfl⟩

/-- A text is cut at its last separator: none stands behind the cut. -/
theorem cutLast?_eq_some_iff {separator : Char} {cs before behind : List Char} :
    cutLast? separator cs = some (before, behind) ↔
      separator ∉ behind ∧ cs = before ++ separator :: behind := by
  simp only [cutLast?, Option.map_eq_some_iff, Prod.mk.injEq]
  constructor
  · rintro ⟨⟨u, v⟩, huv, rfl, rfl⟩
    obtain ⟨hu, hr⟩ := cutFirst?_eq_some_iff.mp huv
    refine ⟨by simpa using hu, ?_⟩
    simpa using congrArg List.reverse hr
  · rintro ⟨hb, rfl⟩
    refine ⟨(behind.reverse, before.reverse), cutFirst?_eq_some_iff.mpr ⟨by simpa using hb, ?_⟩,
      by simp, by simp⟩
    simp

/-- The text without a line feed at its end, where a pattern may already stop. -/
def dropFinalLineFeed (cs : List Char) : List Char :=
  if cs.getLast? = some '\n' then cs.dropLast else cs

end SampleSchema.Text
