import Mathlib.Data.List.Basic
import SampleSchema.Text.Utf8
/-!
# Texts are read back from their octets

The decoder takes one octet at a time. Of the octets that encode a character, the first one holds
the highest bits and announces how many follow, and each that follows adds six bits. So all bits are
together when the last octet comes, and the decoder stands between characters again.

* `exists_decodeFrom_encodeChar` is that for one character, by the number of its octets.
* `decodeUtf8_encodeUtf8`: so a text is read back from its octets.
-/

namespace SampleSchema.Text

/-! ## One octet -/

theorem toNat_ofNat_of_lt {n : Nat} (h : n < 256) : (UInt8.ofNat n).toNat = n :=
  UInt8.toNat_ofNat_of_lt' h

section Octet

variable (position : Nat) (rest : List UInt8)

theorem decodeFrom_start {octet : UInt8} {octets : List UInt8} {bits missing low high : Nat}
    (hstart : PendingCharacter.start? octet = some ⟨octets, bits, missing + 1, low, high⟩) :
    decodeFrom position none (octet :: rest) =
      decodeFrom (position + 1) (some ⟨octets, bits, missing + 1, low, high⟩) rest := by
  rw [decodeFrom, hstart]
  exact if_neg (Nat.succ_ne_zero missing)

variable {octets : List UInt8} {bits missing low high n : Nat} (hlow : low ≤ n % 64 + 128)
  (hhigh : n % 64 + 128 ≤ high)
include hlow hhigh

theorem next?_continuation :
    PendingCharacter.next? ⟨octets, bits, missing + 1, low, high⟩ (UInt8.ofNat (n % 64 + 128)) =
      some ⟨octets ++ [UInt8.ofNat (n % 64 + 128)], bits * 64 + n % 64, missing, 0x80, 0xbf⟩ := by
  have hoctet : (UInt8.ofNat (n % 64 + 128)).toNat = n % 64 + 128 := toNat_ofNat_of_lt (by omega)
  rw [PendingCharacter.next?, hoctet, if_pos ⟨hlow, hhigh⟩, Nat.add_sub_cancel, Nat.add_sub_cancel]

theorem decodeFrom_more :
    decodeFrom position (some ⟨octets, bits, missing + 2, low, high⟩)
        (UInt8.ofNat (n % 64 + 128) :: rest) =
      decodeFrom (position + 1)
        (some ⟨octets ++ [UInt8.ofNat (n % 64 + 128)], bits * 64 + n % 64, missing + 1, 0x80, 0xbf⟩)
        rest := by
  rw [decodeFrom, next?_continuation hlow hhigh]
  exact if_neg (Nat.succ_ne_zero missing)

theorem decodeFrom_last :
    decodeFrom position (some ⟨octets, bits, 1, low, high⟩) (UInt8.ofNat (n % 64 + 128) :: rest) =
      (decodeFrom (position + 1) none rest).map (Char.ofNat (bits * 64 + n % 64) :: ·) := by
  rw [decodeFrom, next?_continuation hlow hhigh]
  exact if_pos rfl

end Octet

/-! ## One character -/

section First

variable {v : Nat}

theorem start?_one (hv : v ≤ 0x7f) :
    PendingCharacter.start? (UInt8.ofNat v) = some ⟨[UInt8.ofNat v], v, 0, 0x80, 0xbf⟩ := by
  unfold PendingCharacter.start?
  rw [toNat_ofNat_of_lt (by omega)]
  exact if_pos (by omega)

theorem exists_start?_two (hlow : 0x80 ≤ v) (hhigh : v ≤ 0x7ff) :
    ∃ octets, PendingCharacter.start? (UInt8.ofNat (v / 64 % 32 + 192)) =
      some ⟨octets, v / 64, 1, 0x80, 0xbf⟩ := by
  have hbits : v / 64 % 32 + 192 - 0xc0 = v / 64 := by omega
  unfold PendingCharacter.start?
  rw [toNat_ofNat_of_lt (by omega)]
  dsimp only
  rw [if_neg (by omega), if_neg (by omega), if_pos (by omega), hbits]
  exact ⟨_, rfl⟩

/-- The first of three octets sets bounds to the second, which shut out no character: only overlong
forms and surrogates are beyond them. -/
theorem exists_start?_three (hlow : 0x800 ≤ v) (hhigh : v ≤ 0xffff)
    (hvalid : v < 0xd800 ∨ 0xdfff < v) :
    ∃ octets low high, PendingCharacter.start? (UInt8.ofNat (v / 4096 % 16 + 224)) =
        some ⟨octets, v / 4096, 2, low, high⟩ ∧
      low ≤ v / 64 % 64 + 128 ∧ v / 64 % 64 + 128 ≤ high := by
  unfold PendingCharacter.start?
  rw [toNat_ofNat_of_lt (by omega)]
  dsimp only
  rw [if_neg (by omega), if_neg (by omega), if_neg (by omega)]
  split
  · have hbits : v / 4096 = 0 := by omega
    rw [hbits]
    exact ⟨_, _, _, rfl, by omega, by omega⟩
  · split
    · have hbits : v / 4096 = 0xd := by omega
      rw [hbits]
      exact ⟨_, _, _, rfl, by omega, by omega⟩
    · have hbits : v / 4096 % 16 + 224 - 0xe0 = v / 4096 := by omega
      rw [if_pos (by omega), hbits]
      exact ⟨_, _, _, rfl, by omega, by omega⟩

/-- So does the first of four, for overlong forms and numbers past the last character. -/
theorem exists_start?_four (hlow : 0x10000 ≤ v) (hhigh : v < 0x110000) :
    ∃ octets low high, PendingCharacter.start? (UInt8.ofNat (v / 262144 % 8 + 240)) =
        some ⟨octets, v / 262144, 3, low, high⟩ ∧
      low ≤ v / 4096 % 64 + 128 ∧ v / 4096 % 64 + 128 ≤ high := by
  unfold PendingCharacter.start?
  rw [toNat_ofNat_of_lt (by omega)]
  dsimp only
  rw [if_neg (by omega), if_neg (by omega), if_neg (by omega), if_neg (by omega), if_neg (by omega),
    if_neg (by omega)]
  split
  · have hbits : v / 262144 = 0 := by omega
    rw [hbits]
    exact ⟨_, _, _, rfl, by omega, by omega⟩
  · split
    · have hbits : v / 262144 % 8 + 240 - 0xf0 = v / 262144 := by omega
      rw [hbits]
      exact ⟨_, _, _, rfl, by omega, by omega⟩
    · have hbits : v / 262144 = 4 := by omega
      rw [if_pos (by omega), hbits]
      exact ⟨_, _, _, rfl, by omega, by omega⟩

end First

/-- The octets of a character are read as that character. -/
theorem exists_decodeFrom_encodeChar (c : Char) (position : Nat) (rest : List UInt8) :
    ∃ next, decodeFrom position none (String.utf8EncodeChar c ++ rest) =
      (decodeFrom next none rest).map (c :: ·) := by
  have hvalid : c.toNat < 0xd800 ∨ 0xdfff < c.toNat ∧ c.toNat < 0x110000 := c.valid
  have hchar : ∀ bits, bits = c.toNat → Char.ofNat bits = c := by
    rintro _ rfl
    exact Char.ofNat_toNat c
  have hval : c.val.toNat = c.toNat := rfl
  unfold String.utf8EncodeChar
  dsimp only
  rw [hval]
  generalize c.toNat = v at hvalid hchar
  split
  · refine ⟨position + 1, ?_⟩
    rw [List.singleton_append, decodeFrom, start?_one (by omega), ← hchar v rfl]
    rfl
  · split
    · obtain ⟨octets, hstart⟩ := exists_start?_two (v := v) (by omega) (by omega)
      refine ⟨position + 1 + 1, ?_⟩
      rw [List.cons_append, List.singleton_append, decodeFrom_start _ _ hstart,
        decodeFrom_last _ _ (by omega) (by omega), hchar _ (by omega)]
    · split
      · obtain ⟨octets, low, high, hstart, hlow, hhigh⟩ :=
          exists_start?_three (v := v) (by omega) (by omega) (by omega)
        refine ⟨position + 1 + 1 + 1, ?_⟩
        rw [List.cons_append, List.cons_append, List.singleton_append, decodeFrom_start _ _ hstart,
          decodeFrom_more _ _ hlow hhigh, decodeFrom_last _ _ (by omega) (by omega),
          hchar _ (by omega)]
      · obtain ⟨octets, low, high, hstart, hlow, hhigh⟩ :=
          exists_start?_four (v := v) (by omega) (by omega)
        refine ⟨position + 1 + 1 + 1 + 1, ?_⟩
        rw [List.cons_append, List.cons_append, List.cons_append, List.singleton_append,
          decodeFrom_start _ _ hstart, decodeFrom_more _ _ hlow hhigh,
          decodeFrom_more _ _ (by omega) (by omega), decodeFrom_last _ _ (by omega) (by omega),
          hchar _ (by omega)]

/-! ## Whole texts -/

theorem decodeFrom_flatMap (cs : List Char) (position : Nat) :
    decodeFrom position none (cs.flatMap String.utf8EncodeChar) = .ok cs := by
  induction cs generalizing position with
  | nil => rfl
  | cons c rest ih =>
    obtain ⟨next, hnext⟩ :=
      exists_decodeFrom_encodeChar c position (rest.flatMap String.utf8EncodeChar)
    rw [List.flatMap_cons, hnext, ih]
    rfl

/-- The octets of an array are listed from any place on. -/
theorem toListLoop_eq (octets : ByteArray) (i : Nat) (before : List UInt8) :
    ByteArray.toList.loop octets i before = before.reverse ++ octets.data.toList.drop i := by
  fun_induction ByteArray.toList.loop octets i before with
  | case1 i before hlt ih =>
    have hlength : i < octets.data.toList.length := by simpa using hlt
    have hget : octets.get! i = octets.data.toList[i] := by
      obtain ⟨data⟩ := octets
      exact getElem!_pos data i hlt
    rw [ih, List.reverse_cons, List.append_assoc, hget, List.drop_eq_getElem_cons hlength]
    rfl
  | case2 i before hend =>
    rw [List.drop_eq_nil_of_le (by simpa using hend), List.append_nil]

/-- The octets of a text are those of its characters. -/
theorem encodeUtf8_eq_flatMap (s : String) :
    encodeUtf8 s = s.toList.flatMap String.utf8EncodeChar := by
  have hlist : ∀ cs : List Char,
      (String.ofList cs).toByteArray = (cs.flatMap String.utf8EncodeChar).toByteArray :=
    fun _ => rfl
  rw [encodeUtf8, String.toUTF8_eq_toByteArray, ← String.ofList_toList (s := s), hlist,
    String.toList_ofList, ByteArray.toList, toListLoop_eq, List.reverse_nil, List.nil_append,
    List.drop_zero, List.toList_data_toByteArray]

/-- **A text is read back from its octets.** -/
theorem decodeUtf8_encodeUtf8 (s : String) : decodeUtf8 (encodeUtf8 s) = .ok s.toList := by
  rw [encodeUtf8_eq_flatMap, decodeUtf8, decodeFrom_flatMap]

end SampleSchema.Text
