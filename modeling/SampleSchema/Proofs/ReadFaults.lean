import SampleSchema.Proofs.JsonText
/-!
# Why a text is not read

Reading fails at a place of the text, or because an integer has too many digits. The second is no
fault of the grammar, and it is reported in another way, so it matters when it occurs:
`hasLongRun_of_read` says that it takes a run of more digits than the limit.

The reader goes on with what is left of the text, and never with anything else. `StaysIn` says so
of one step, and passes on to the steps that are made of others.
-/

namespace SampleSchema.Json

/-- A run of more digits than an integer may have. -/
def HasLongRun (cs : List Char) : Prop :=
  ∃ digits, digits <:+: cs ∧ (∀ c ∈ digits, c.isDigit = true) ∧ Text.digitLimit < digits.length

theorem HasLongRun.of_suffix {cs text : List Char} (h : HasLongRun cs) (hsuffix : cs <:+ text) :
    HasLongRun text := by
  obtain ⟨digits, hinside, hdigits, hlong⟩ := h
  exact ⟨digits, hinside.trans hsuffix.isInfix, hdigits, hlong⟩

/-! ## One step of reading -/

/-- What is left behind a reading is the end of the text, and if digits are too many, they stand
there. -/
inductive StaysIn {α : Type} (text : List Char) : Except Stop (α × List Char) → Prop where
  | read (a : α) {rest : List Char} (hrest : rest <:+ text) : StaysIn text (.ok (a, rest))
  | malformed (cause : Cause) (left : Nat) : StaysIn text (.error (.malformed cause left))
  | tooManyDigits (hlong : HasLongRun text) : StaysIn text (.error .tooManyDigits)

namespace StaysIn

variable {α β : Type} {cs text : List Char} {result : Except Stop (α × List Char)}

theorem of_suffix (h : StaysIn cs result) (hsuffix : cs <:+ text) : StaysIn text result := by
  cases h with
  | read a hrest => exact .read a (hrest.trans hsuffix)
  | malformed cause left => exact .malformed cause left
  | tooManyDigits hlong => exact .tooManyDigits (hlong.of_suffix hsuffix)

theorem bind {next : α × List Char → Except Stop (β × List Char)} (h : StaysIn text result)
    (hnext : ∀ a rest, StaysIn rest (next (a, rest))) : StaysIn text (result >>= next) := by
  cases h with
  | read a hrest => exact (hnext a _).of_suffix hrest
  | malformed cause left => exact .malformed cause left
  | tooManyDigits hlong => exact .tooManyDigits hlong

theorem map {f : α × List Char → β × List Char} (h : StaysIn text result)
    (hf : ∀ a rest, ∃ b, f (a, rest) = (b, rest)) : StaysIn text (result.map f) := by
  cases h with
  | read a hrest =>
    obtain ⟨b, hb⟩ := hf a _
    rw [Except.map, hb]
    exact .read b hrest
  | malformed cause left => exact .malformed cause left
  | tooManyDigits hlong => exact .tooManyDigits hlong

end StaysIn

theorem skipSpace_suffix (cs : List Char) : skipSpace cs <:+ cs :=
  List.dropWhile_suffix isSpace

theorem suffix_of_skipSpace {cs rest : List Char} (h : skipSpace cs = rest) : rest <:+ cs :=
  h ▸ skipSpace_suffix cs

theorem suffix_of_skipSpace_cons {c : Char} {cs rest : List Char} (h : skipSpace cs = c :: rest) :
    rest <:+ cs :=
  (List.suffix_cons c rest).trans (suffix_of_skipSpace h)

/-! ## Strings -/

theorem partner?_eq_error {unit : Nat} {rest : List Char} {stop : Stop}
    (h : partner? unit rest = .error stop) : ∃ cause left, stop = .malformed cause left := by
  unfold partner? at h
  split at h
  · split at h
    · split at h
      · exact nomatch h
      · exact ⟨_, _, (Except.error.inj h).symm⟩
    · exact ⟨_, _, (Except.error.inj h).symm⟩
    · exact nomatch h
  · exact nomatch h

theorem staysIn_scanString (halves : Text.Halves) (opening : Nat) (cs : List Char) :
    StaysIn cs (scanString halves opening cs) := by
  fun_induction scanString halves opening cs with
  | case2 rest => exact .read [] (List.suffix_cons _ rest)
  | case5 a b c d rest unit hunit stop hpartner =>
    obtain ⟨cause, left, rfl⟩ := partner?_eq_error hpartner
    rw [hpartner]
    exact .malformed cause left
  | case6 a b c d unit low _ _ _ _ _ _ more hunit hpartner ih =>
    -- both escapes of a pair are passed over
    rw [hpartner]
    exact (ih.map fun _ _ => ⟨_, rfl⟩).of_suffix
      (List.suffix_append [_, _, _, _, _, _, _, _, _, _, _, _] more)
  | case7 a b c d unit low rest hsingle hunit hpartner ih =>
    rw [hpartner]
    split
    · rename_i herror
      exact nomatch herror
    · rename_i hpair
      exact (hsingle _ _ _ _ _ _ _ _ rfl (Except.ok.inj hpair)).elim
    · exact (ih.map fun _ _ => ⟨_, rfl⟩).of_suffix (List.suffix_append [_, _, a, b, c, d] _)
  | case9 c rest _ _ escaped hescape ih =>
    exact (ih.map fun _ _ => ⟨_, rfl⟩).of_suffix (List.suffix_append [_, c] rest)
  | case12 c rest _ _ _ _ _ _ ih =>
    exact (ih.map fun _ _ => ⟨_, rfl⟩).of_suffix (List.suffix_cons c rest)
  | _ => exact .malformed _ _

/-! ## Words and numerals -/

theorem suffix_of_scanWord {dialect : Dialect} {cs rest : List Char} {v : Value}
    (h : scanWord dialect cs = some (v, rest)) : rest <:+ cs := by
  unfold scanWord at h
  obtain ⟨⟨word, value⟩, -, hafter⟩ := List.exists_of_findSome?_eq_some h
  obtain ⟨tail, htail, hvalue⟩ := Option.map_eq_some_iff.mp hafter
  obtain ⟨-, rfl⟩ := Prod.mk.inj hvalue
  unfold afterWord? at htail
  split at htail
  · rw [← Option.some.inj htail]
    exact List.drop_suffix _ cs
  · exact nomatch htail

theorem append_of_scanWhole {cs whole rest : List Char} (h : scanWhole cs = some (whole, rest)) :
    whole ++ rest = cs := by
  unfold scanWhole at h
  split at h
  · obtain ⟨rfl, rfl⟩ := Prod.mk.inj (Option.some.inj h)
    rfl
  · split at h
    · exact nomatch h
    · rename_i digits tail _ hspan
      obtain ⟨rfl, rfl⟩ := Prod.mk.inj (Option.some.inj h)
      have happend := spanDigits_append cs
      rw [hspan] at happend
      exact happend

theorem suffix_spanDigits (cs : List Char) : (spanDigits cs).2 <:+ cs :=
  List.dropWhile_suffix _

theorem suffix_scanFraction (cs : List Char) : (scanFraction cs).2 <:+ cs := by
  unfold scanFraction
  split
  · rename_i rest
    have hspan := suffix_spanDigits rest
    split
    · exact List.suffix_refl _
    · rename_i hdigits
      rw [hdigits] at hspan
      exact hspan.trans (List.suffix_cons _ rest)
  · exact List.suffix_refl cs

theorem suffix_scanSign (cs : List Char) : (scanSign cs).2 <:+ cs := by
  unfold scanSign
  split
  · exact List.suffix_cons _ _
  · exact List.suffix_cons _ _
  · exact List.suffix_refl cs

theorem suffix_scanExponent (cs : List Char) : (scanExponent cs).2 <:+ cs := by
  unfold scanExponent
  split
  · rename_i mark rest
    have hdigits := (suffix_spanDigits (scanSign rest).2).trans
      ((suffix_scanSign rest).trans (List.suffix_cons mark rest))
    split
    · dsimp only
      split
      · exact List.suffix_refl _
      · rename_i hspan
        rw [hspan] at hdigits
        exact hdigits
    · exact List.suffix_refl _
  · exact List.suffix_refl _

/-- The integer part of a numeral stands in the text, and what follows the numeral ends it. -/
theorem parts_of_scan {cs rest : List Char} {n : Numeral} (h : Numeral.scan cs = some (n, rest)) :
    n.whole <:+: cs ∧ rest <:+ cs := by
  unfold Numeral.scan at h
  obtain ⟨⟨whole, tail⟩, hwhole, h⟩ := Option.map_eq_some_iff.mp h
  obtain ⟨rfl, rfl⟩ := Prod.mk.inj h
  have hparts := append_of_scanWhole hwhole
  have hunsigned : whole ++ tail <:+ cs := by
    rw [hparts]
    split
    · exact List.suffix_cons _ _
    · exact List.suffix_refl _
  refine ⟨(List.prefix_append whole tail).isInfix.trans hunsigned.isInfix, ?_⟩
  exact ((suffix_scanExponent _).trans (suffix_scanFraction tail)).trans
    ((List.suffix_append whole tail).trans hunsigned)

theorem lt_length_of_value?_eq_none {n : Numeral} (h : n.value? = none) :
    Text.digitLimit < n.whole.length := by
  unfold Numeral.value? at h
  split at h
  · split at h
    · assumption
    · exact nomatch h
  · exact nomatch h

theorem staysIn_scanAtom (dialect : Dialect) (cs : List Char) :
    StaysIn cs (scanAtom dialect cs) := by
  unfold scanAtom
  split
  · rename_i result hword
    exact .read result.1 (suffix_of_scanWord hword)
  · split
    · exact .malformed _ _
    · rename_i n rest hscan
      obtain ⟨hwhole, hrest⟩ := parts_of_scan hscan
      split
      · exact .read _ hrest
      · rename_i hnone
        exact .tooManyDigits
          ⟨n.whole, hwhole, isDigit_whole_of_scan hscan, lt_length_of_value?_eq_none hnone⟩

/-! ## Values -/

section Steps

variable {dialect : Dialect} {steps : Nat}

theorem staysIn_readValue (hitems : ∀ cs, StaysIn cs (readItems dialect steps cs))
    (hmembers : ∀ cs, StaysIn cs (readMembers dialect steps cs)) (cs : List Char) :
    StaysIn cs (readValue dialect (steps + 1) cs) := by
  unfold readValue
  split
  · rename_i rest
    refine StaysIn.of_suffix ?_ (List.suffix_cons _ rest)
    exact (staysIn_scanString _ _ rest).bind fun text rest => .read _ (List.suffix_refl rest)
  · rename_i rest
    split
    · exact .malformed _ _
    · rename_i hclosed
      exact .read _ ((suffix_of_skipSpace_cons hclosed).trans (List.suffix_cons _ rest))
    · refine StaysIn.of_suffix ?_ ((skipSpace_suffix rest).trans (List.suffix_cons _ rest))
      exact (hitems _).bind fun items rest => .read _ (List.suffix_refl rest)
  · rename_i rest
    split
    · exact .malformed _ _
    · rename_i hclosed
      exact .read _ ((suffix_of_skipSpace_cons hclosed).trans (List.suffix_cons _ rest))
    · refine StaysIn.of_suffix ?_ ((skipSpace_suffix rest).trans (List.suffix_cons _ rest))
      exact (hmembers _).bind fun members rest => .read _ (List.suffix_refl rest)
  · exact staysIn_scanAtom dialect cs

theorem staysIn_readItems (hvalue : ∀ cs, StaysIn cs (readValue dialect steps cs))
    (hitems : ∀ cs, StaysIn cs (readItems dialect steps cs)) (cs : List Char) :
    StaysIn cs (readItems dialect (steps + 1) cs) := by
  unfold readItems
  refine (hvalue cs).bind fun item rest => ?_
  dsimp only
  split
  · rename_i hclosed
    exact .read _ (suffix_of_skipSpace_cons hclosed)
  · rename_i hcomma
    refine StaysIn.of_suffix ?_ ((skipSpace_suffix _).trans (suffix_of_skipSpace_cons hcomma))
    exact (hitems _).bind fun items rest => .read _ (List.suffix_refl rest)
  · exact .malformed _ _

theorem staysIn_readMembers (hvalue : ∀ cs, StaysIn cs (readValue dialect steps cs))
    (hmembers : ∀ cs, StaysIn cs (readMembers dialect steps cs)) (cs : List Char) :
    StaysIn cs (readMembers dialect (steps + 1) cs) := by
  unfold readMembers
  split
  · rename_i rest
    refine StaysIn.of_suffix ?_ (List.suffix_cons _ rest)
    refine (staysIn_scanString _ _ rest).bind fun name rest => ?_
    dsimp only
    split
    · rename_i hcolon
      refine StaysIn.of_suffix ?_ ((skipSpace_suffix _).trans (suffix_of_skipSpace_cons hcolon))
      refine (hvalue _).bind fun value rest => ?_
      dsimp only
      split
      · rename_i hclosed
        exact .read _ (suffix_of_skipSpace_cons hclosed)
      · rename_i hcomma
        refine StaysIn.of_suffix ?_ ((skipSpace_suffix _).trans (suffix_of_skipSpace_cons hcomma))
        exact (hmembers _).bind fun members rest => .read _ (List.suffix_refl rest)
      · exact .malformed _ _
    · exact .malformed _ _
  · exact .malformed _ _

end Steps

/-- However many steps are left, reading stays in its text. -/
theorem staysIn_reads (dialect : Dialect) (steps : Nat) :
    (∀ cs, StaysIn cs (readValue dialect steps cs)) ∧
    (∀ cs, StaysIn cs (readItems dialect steps cs)) ∧
    (∀ cs, StaysIn cs (readMembers dialect steps cs)) := by
  induction steps with
  | zero =>
    exact ⟨fun _ => .malformed _ _, fun _ => .malformed _ _, fun _ => .malformed _ _⟩
  | succ steps ih =>
    obtain ⟨ihValue, ihItems, ihMembers⟩ := ih
    exact ⟨staysIn_readValue ihItems ihMembers, staysIn_readItems ihValue ihItems,
      staysIn_readMembers ihValue ihMembers⟩

/-! ## Whole texts -/

theorem skipMark_suffix (cs : List Char) : skipMark cs <:+ cs := by
  unfold skipMark
  split
  · exact List.suffix_cons _ _
  · exact List.suffix_append [_, _, _] _
  · exact List.suffix_refl cs

/-- Digits are too many only in a text that has such a run of them. -/
theorem hasLongRun_of_read {text : List Char} (h : read .strict text = .error .tooManyDigits) :
    HasLongRun text := by
  have hstays := (staysIn_reads .strict (2 * text.length + 2)).1 (skipSpace (skipMark text))
  unfold read at h
  split at h
  · exact nomatch h
  · rename_i stop hscan
    obtain rfl : stop = .tooManyDigits := by
      cases stop with
      | malformed cause left => exact nomatch h
      | tooManyDigits => rfl
    unfold scanText at hscan
    rcases except_bind_eq_error hscan with hvalue | ⟨⟨v, rest⟩, -, hend⟩
    · have hvalue : readValue .strict (2 * text.length + 2) (skipSpace (skipMark text)) =
          .error .tooManyDigits := hvalue
      rw [hvalue] at hstays
      cases hstays with
      | tooManyDigits hlong =>
        exact hlong.of_suffix ((skipSpace_suffix _).trans (skipMark_suffix text))
    · -- behind the value, a fault is about what is left over
      dsimp only at hend
      split at hend
      · exact nomatch hend
      · exact nomatch hend

/-- An integer of too many digits is a well formed numeral, but it is not read. -/
theorem read_longNumeral {n : Numeral} (hn : n.WellFormed) (hlong : n.value? = none) :
    read .strict n.spelled = .error .tooManyDigits := by
  have hscan := scan_spelled hn endsNumeral_nil
  obtain ⟨c, cs, hspelled, hc⟩ := head_spelled hn
  rw [List.append_nil] at hscan
  rw [hspelled] at hscan ⊢
  obtain ⟨-, -, -, -, -, -, -, hspace⟩ := ne_of_startsNumeral hc
  have hmark : ∀ mark : Char, ¬(mark = '-' ∨ mark.isDigit = true) → c ≠ mark := by
    rintro mark hmark rfl
    exact hmark hc
  have hfault : scanText .strict (c :: cs) = .error .tooManyDigits := by
    unfold scanText
    dsimp only
    rw [skipSpace_start (hmark _ (by decide)) (hmark _ (by decide)) hspace cs,
      readValue_of_startsNumeral hc, scanAtom_of_scan hc hscan, hlong]
    rfl
  rw [read, hfault]
  rfl

end SampleSchema.Json
