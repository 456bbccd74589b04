import SampleSchema.Proofs.TextSamples
import SampleSchema.Text.Blank
import SampleSchema.Text.Digit
/-!
# Line boundaries in JSON texts

A line may end at ten characters. Seven of them are controls, and a JSON string has those as
escapes. The other three stand in a string as they are, so these are all the line boundaries that the
compact text of a value can have: `isOneLine_printValue_iff` says that it has none exactly if no
string of the value, names included, holds one of the three.
-/

namespace SampleSchema

namespace Text

/-- The line boundaries that are no controls: the next line, and the separators of lines and of
paragraphs. -/
def isBareBreak (c : Char) : Bool :=
  c == '\u0085' || c == '\u2028' || c == '\u2029'

theorem isBareBreak_iff {c : Char} :
    isBareBreak c = true ↔ isLineEnd c = true ∧ 0x20 ≤ c.toNat := by
  have hnumber : ∀ d : Char, c = d ↔ c.toNat = d.toNat := fun d => Char.toNat_inj.symm
  simp only [isBareBreak, isLineEnd, Bool.or_eq_true, Bool.and_eq_true, beq_iff_eq,
    decide_eq_true_eq, hnumber, Char.reduceToNat]
  omega

theorem isLineEnd_of_isBareBreak {c : Char} (h : isBareBreak c = true) : isLineEnd c = true :=
  (isBareBreak_iff.mp h).1

theorem ne_of_isLineEnd {c d : Char} (hc : isLineEnd c = true) (hd : isLineEnd d = false) :
    c ≠ d := by
  rintro rfl
  rw [hc] at hd
  exact nomatch hd

theorem isLineEnd_of_isDigit {c : Char} (hc : c.isDigit = true) : isLineEnd c = false := by
  have hbounds := isDigit_iff_bounds.mp hc
  simp only [isLineEnd, Bool.or_eq_false_iff, Bool.and_eq_false_iff, decide_eq_false_iff_not,
    beq_eq_false_iff_ne]
  omega

/-- A text without line boundaries. -/
def IsOneLine (cs : List Char) : Prop :=
  ∀ c ∈ cs, isLineEnd c = false

instance (cs : List Char) : Decidable (IsOneLine cs) :=
  List.decidableBAll (fun c => isLineEnd c = false) cs

theorem isOneLine_nil : IsOneLine [] := nofun

@[simp] theorem isOneLine_cons_iff {c : Char} {cs : List Char} :
    IsOneLine (c :: cs) ↔ isLineEnd c = false ∧ IsOneLine cs :=
  List.forall_mem_cons

@[simp] theorem isOneLine_append_iff {cs more : List Char} :
    IsOneLine (cs ++ more) ↔ IsOneLine cs ∧ IsOneLine more :=
  List.forall_mem_append

theorem isOneLine_flatMap_iff {α : Type} {things : List α} {text : α → List Char} :
    IsOneLine (things.flatMap text) ↔ ∀ thing ∈ things, IsOneLine (text thing) := by
  simp only [IsOneLine, List.mem_flatMap]
  exact ⟨fun h thing hthing c hc => h c ⟨thing, hthing, hc⟩,
    fun h c ⟨thing, hthing, hc⟩ => h thing hthing c hc⟩

theorem isOneLine_of_isDigit {cs : List Char} (hcs : ∀ c ∈ cs, c.isDigit = true) : IsOneLine cs :=
  fun c hc => isLineEnd_of_isDigit (hcs c hc)

end Text

open Text

/-- Whether no string of a value, its parts aside, holds a line boundary that is no control. The names
of members count as strings. -/
def Value.isUnbroken : Value → Bool
  | .str s => !s.toList.any isBareBreak
  | .object members => members.all fun member => !member.1.toList.any isBareBreak
  | _ => true

namespace Json

/-! ## Strings -/

theorem isOneLine_hexDigits {n : Nat} (hn : n < 0x20) : IsOneLine (hexDigits 4 n) := by
  revert n
  decide

theorem escaped_of_isBareBreak {c : Char} (hc : isBareBreak c = true) : escaped c = [c] := by
  simp only [isBareBreak, Bool.or_eq_true, beq_iff_eq] at hc
  rcases hc with (rfl | rfl) | rfl
  · rfl
  · rfl
  · rfl

/-- Every other line boundary is written as an escape. -/
theorem isOneLine_escaped {c : Char} (hc : isBareBreak c = false) : IsOneLine (escaped c) := by
  unfold escaped
  split
  -- the seven characters with an escape of one letter
  iterate 7 decide
  split
  · rename_i hcontrol
    exact isOneLine_cons_iff.mpr ⟨rfl, isOneLine_cons_iff.mpr ⟨rfl, isOneLine_hexDigits hcontrol⟩⟩
  · rename_i hcontrol
    refine isOneLine_cons_iff.mpr ⟨?_, isOneLine_nil⟩
    rw [← Bool.not_eq_true, isBareBreak_iff] at hc
    rw [← Bool.not_eq_true]
    exact fun hend => hc ⟨hend, by omega⟩

theorem isOneLine_escaped_iff {c : Char} : IsOneLine (escaped c) ↔ isBareBreak c = false := by
  constructor
  · intro h
    rw [← Bool.not_eq_true]
    intro hc
    rw [escaped_of_isBareBreak hc, isOneLine_cons_iff, isLineEnd_of_isBareBreak hc] at h
    exact nomatch h.1
  · exact isOneLine_escaped

theorem isOneLine_quote_iff {cs : List Char} :
    IsOneLine (quote cs) ↔ cs.any isBareBreak = false := by
  have hquote : isLineEnd '"' = false := rfl
  simp only [quote, isOneLine_cons_iff, isOneLine_append_iff, isOneLine_flatMap_iff, hquote,
    isOneLine_escaped_iff, isOneLine_nil, true_and, and_true, List.any_eq_false, Bool.not_eq_true]

/-! ## Numerals -/

theorem isOneLine_spelled {n : Numeral} (hn : n.WellFormed) : IsOneLine n.spelled := by
  have hsign : IsOneLine (Numeral.signText n.negative) := by
    cases n.negative
    · exact isOneLine_nil
    · decide
  have hfraction : IsOneLine (Numeral.fractionText n.fraction) := by
    unfold Numeral.fractionText
    split
    · exact isOneLine_nil
    · exact isOneLine_cons_iff.mpr ⟨rfl, isOneLine_of_isDigit hn.fraction⟩
  have hexponent : IsOneLine (Numeral.exponentText n.exponent) := by
    cases hexp : n.exponent with
    | none => exact isOneLine_nil
    | some exponent =>
      obtain ⟨negative, digits⟩ := exponent
      have hdigits := isOneLine_of_isDigit (hn.exponent negative digits hexp).2
      cases negative
      · exact isOneLine_cons_iff.mpr ⟨rfl, isOneLine_cons_iff.mpr ⟨rfl, hdigits⟩⟩
      · exact isOneLine_cons_iff.mpr ⟨rfl, isOneLine_cons_iff.mpr ⟨rfl, hdigits⟩⟩
  simp only [Numeral.spelled, isOneLine_append_iff]
  exact ⟨hsign, isOneLine_of_isDigit hn.whole, hfraction, hexponent⟩

/-! ## Arrays and objects -/

section Parts

variable {indent : List Char} {depth : Nat} {parts : List (List Char)}

/-- Around the parts of an array or object and between them are no line boundaries. -/
theorem isOneLine_enclose_iff {opening closing : Char} (hopening : isLineEnd opening = false)
    (hclosing : isLineEnd closing = false) :
    IsOneLine (enclose [] depth opening closing parts) ↔ ∀ part ∈ parts, IsOneLine part := by
  have hcomma : isLineEnd ',' = false := rfl
  cases parts with
  | nil => simp [enclose, hopening, hclosing, isOneLine_nil]
  | cons first rest =>
    simp [enclose, lineStart, hopening, hclosing, hcomma, isOneLine_nil, isOneLine_flatMap_iff]

theorem forall₂_of_printItems {items : List Value} (h : printItems indent depth items = .ok parts) :
    List.Forall₂ (fun item part => printValue indent depth item = .ok part) items parts := by
  induction items generalizing parts with
  | nil =>
    obtain rfl := Except.ok.inj h
    exact .nil
  | cons item items ih =>
    obtain ⟨text, others, rfl, htext, hothers⟩ := printItems_cons_eq_ok h
    exact .cons htext (ih hothers)

theorem forall₂_of_printMembers {members : List (String × Value)}
    (h : printMembers indent depth members = .ok parts) :
    List.Forall₂ (fun member part => ∃ text, printValue indent depth member.2 = .ok text ∧
      part = quote member.1.toList ++ colon indent ++ text) members parts := by
  induction members generalizing parts with
  | nil =>
    obtain rfl := Except.ok.inj h
    exact .nil
  | cons member members ih =>
    obtain ⟨name, value⟩ := member
    obtain ⟨text, others, rfl, htext, hothers⟩ := printMembers_cons_eq_ok h
    exact .cons ⟨text, htext, rfl⟩ (ih hothers)

/-- Parts that go along with things pass a test exactly if the things do. -/
theorem forall_mem_iff_of_forall₂ {α : Type} {things : List α} {R : α → List Char → Prop}
    (h : List.Forall₂ R things parts) {p : α → Prop}
    (hp : ∀ thing ∈ things, ∀ part, R thing part → (IsOneLine part ↔ p thing)) :
    (∀ part ∈ parts, IsOneLine part) ↔ ∀ thing ∈ things, p thing := by
  induction h with
  | nil => simp
  | cons hfirst _ ih =>
    obtain ⟨hhere, hrest⟩ := List.forall_mem_cons.mp hp
    rw [List.forall_mem_cons, List.forall_mem_cons, hhere _ hfirst, ih hrest]

end Parts

/-! ## Values -/

/-- **Which texts are one line.** The compact text of a value that JSON can express is one line
exactly if no string in the value holds a line boundary that is no control. -/
theorem isOneLine_printValue_iff {v : Value} (hv : v.everywhere Value.isJson = true) {depth : Nat}
    {cs : List Char} (h : printValue [] depth v = .ok cs) :
    IsOneLine cs ↔ v.everywhere Value.isUnbroken = true := by
  have hline : ∀ {cs : List Char}, IsOneLine cs → (IsOneLine cs ↔ true = true) :=
    fun hcs => iff_of_true hcs rfl
  induction v using Value.partsInduction generalizing depth cs with
  | null =>
    obtain rfl := Except.ok.inj h
    exact hline (by decide)
  | bool b =>
    cases b
    · obtain rfl := Except.ok.inj h
      exact hline (by decide)
    · obtain rfl := Except.ok.inj h
      exact hline (by decide)
  | int n =>
    obtain ⟨numeral, hnumeral, rfl, -⟩ := exists_spelled_printInt h
    exact hline (isOneLine_spelled hnumeral)
  | float x =>
    cases x with
    | finite negative magnitude =>
      obtain rfl := Except.ok.inj h
      obtain ⟨numeral, hnumeral, hspelled, -⟩ := exists_spelled_finite negative magnitude
      rw [← hspelled]
      exact hline (isOneLine_spelled hnumeral)
    | infinite negative => exact nomatch h
    | nan => exact nomatch h
  | str s =>
    obtain rfl := Except.ok.inj h
    exact isOneLine_quote_iff.trans (iff_of_eq (Bool.not_eq_true' _).symm)
  | bytes octets => exact nomatch hv
  | list items ih =>
    obtain ⟨-, hitems⟩ := Value.everywhere_list_iff.mp hv
    obtain ⟨parts, hparts, h⟩ := except_bind_eq_ok h
    obtain rfl := Except.ok.inj h
    have hhere : (Value.list items).isUnbroken = true := rfl
    rw [isOneLine_enclose_iff rfl rfl, Value.everywhere_list_iff, and_iff_right hhere]
    exact forall_mem_iff_of_forall₂ (forall₂_of_printItems hparts)
      fun item hitem part hpart => ih item hitem (hitems item hitem) hpart
  | tuple items ih => exact nomatch (Value.everywhere_tuple_iff.mp hv).1
  | object members ih =>
    obtain ⟨-, hmembers⟩ := Value.everywhere_object_iff.mp hv
    obtain ⟨parts, hparts, h⟩ := except_bind_eq_ok h
    obtain rfl := Except.ok.inj h
    have hcolon : IsOneLine (colon []) := by decide
    rw [isOneLine_enclose_iff rfl rfl, Value.everywhere_object_iff, Value.isUnbroken,
      List.all_eq_true, ← forall₂_and]
    refine forall_mem_iff_of_forall₂ (forall₂_of_printMembers hparts) ?_
    rintro member hmember _ ⟨text, htext, rfl⟩
    have hvalue : IsOneLine text ↔ member.2.everywhere Value.isUnbroken = true :=
      ih member hmember (hmembers member hmember) htext
    rw [isOneLine_append_iff, isOneLine_append_iff, and_iff_left hcolon, isOneLine_quote_iff,
      hvalue, Bool.not_eq_true']

end Json

end SampleSchema
