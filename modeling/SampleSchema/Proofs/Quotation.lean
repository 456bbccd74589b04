import SampleSchema.Json.Printer
import SampleSchema.Json.Reader
/-!
# Reading quoted strings back

A character is written as itself or as an escape, and `scanString` reads either as the character:
`scanString_escaped` says so for one character, and `scanString_escapes` for a whole string. What
is written as four hexadecimal digits is a control, never half of a surrogate pair, so no escape is
joined with the one behind it.
-/

namespace SampleSchema

namespace Json

/-! ## Escapes of controls -/

theorem hexDigits_of_control :
    ∀ n < 0x20, Text.hexDigits 4 n = ['0', '0', Nat.digitChar (n / 16), Nat.digitChar (n % 16)] := by
  decide

theorem hexUnit?_of_control :
    ∀ n < 0x20, hexUnit? '0' '0' (Nat.digitChar (n / 16)) (Nat.digitChar (n % 16)) = some n := by
  decide

theorem isHighSurrogate_of_control {unit : Nat} (hunit : unit < 0x20) :
    isHighSurrogate unit = false := by
  rw [isHighSurrogate, decide_eq_false (by omega : ¬0xd800 ≤ unit), Bool.false_and]

theorem isLowSurrogate_of_control {unit : Nat} (hunit : unit < 0x20) :
    isLowSurrogate unit = false := by
  rw [isLowSurrogate, decide_eq_false (by omega : ¬0xdc00 ≤ unit), Bool.false_and]

theorem partner?_of_control {unit : Nat} (hunit : unit < 0x20) (rest : List Char) :
    partner? unit rest = .ok none := by
  unfold partner?
  rw [isHighSurrogate_of_control hunit, if_neg Bool.false_ne_true]

theorem unitChar_of_control {halves : Text.Halves} {c : Char} (hc : c.toNat < 0x20) :
    unitChar halves c.toNat = c := by
  rw [unitChar, isHighSurrogate_of_control hc, isLowSurrogate_of_control hc, Bool.or_false,
    if_neg Bool.false_ne_true, Char.ofNat_toNat]

/-! ## Characters -/

variable {halves : Text.Halves}

theorem scanString_plain (opening : Nat) {c : Char} (rest : List Char) (hquote : c ≠ '"')
    (hbackslash : c ≠ '\\') (hcontrol : ¬c.toNat < 0x20) :
    scanString halves opening (c :: rest) =
      (scanString halves opening rest).map fun (cs, tail) => (c :: cs, tail) := by
  rw [scanString.eq_7 halves opening c rest hquote (fun h _ => hbackslash h)
    (fun _ _ _ _ _ h _ => hbackslash h) (fun _ h _ => hbackslash h)
    (fun _ _ h _ => hbackslash h), if_neg hcontrol]

theorem scanString_simple (opening : Nat) {c mark : Char} (rest : List Char)
    (h : simpleEscape? mark = some c) :
    scanString halves opening ('\\' :: mark :: rest) =
      (scanString halves opening rest).map fun (cs, tail) => (c :: cs, tail) := by
  have hmark : mark ≠ 'u' := by
    rintro rfl
    exact nomatch h
  rw [scanString.eq_6 halves opening mark rest (fun _ _ _ _ _ h _ => hmark h) hmark, h]

theorem scanString_control (opening : Nat) {c : Char} {rest : List Char} (hc : c.toNat < 0x20)
    (hrest : rest ≠ []) :
    scanString halves opening ('\\' :: 'u' :: Text.hexDigits 4 c.toNat ++ rest) =
      (scanString halves opening rest).map fun (cs, tail) => (c :: cs, tail) := by
  have hunit : escapedUnit? '0' '0' (Nat.digitChar (c.toNat / 16)) (Nat.digitChar (c.toNat % 16))
      rest = some c.toNat := by
    rw [escapedUnit?, if_neg (by simpa using hrest), hexUnit?_of_control c.toNat hc]
  rw [hexDigits_of_control c.toNat hc]
  show scanString halves opening ('\\' :: 'u' :: '0' :: '0' :: _ :: _ :: rest) = _
  rw [scanString, hunit]
  dsimp only
  rw [partner?_of_control hc]
  dsimp only
  rw [unitChar_of_control hc]

/-- A character is read as it was written. Behind it stands at least the closing quote. -/
theorem scanString_escaped (opening : Nat) (c : Char) {rest : List Char} (hrest : rest ≠ []) :
    scanString halves opening (escaped c ++ rest) =
      (scanString halves opening rest).map fun (cs, tail) => (c :: cs, tail) := by
  unfold escaped
  split
  -- the seven characters with an escape of one letter
  iterate 7 exact scanString_simple opening rest rfl
  rename_i hquote hbackslash _ _ _ _ _
  split
  · rename_i hcontrol
    exact scanString_control opening hcontrol hrest
  · rename_i hcontrol
    exact scanString_plain opening rest hquote hbackslash hcontrol

/-! ## Strings -/

theorem scanString_escapes (opening : Nat) (cs rest : List Char) :
    scanString halves opening (cs.flatMap escaped ++ '"' :: rest) = .ok (cs, rest) := by
  induction cs with
  | nil => rw [List.flatMap_nil, List.nil_append, scanString]
  | cons c cs ih =>
    have hne : cs.flatMap escaped ++ '"' :: rest ≠ [] :=
      List.append_ne_nil_of_right_ne_nil _ (List.cons_ne_nil _ _)
    rw [List.flatMap_cons, List.append_assoc, scanString_escaped opening c hne, ih]
    rfl

end Json

end SampleSchema
