import Mathlib
import SampleSchema.Format.Email
import SampleSchema.Text.Blank
/-!
# Which texts are email addresses

An address is a mailbox, an at sign, a domain, a dot and a last label. A domain may hold dots and
letters itself, so a text alone does not show where its domain ends. `SpellsEmail` leaves that open,
and `isEmail` decides it: the last dot is the one in front of the label, because a label has none.

* `isDomain_iff`: cutting at the last dot finds a domain and a label if there are any.
* `isEmail_iff_dropFinalLineFeed`: a text passes exactly if it is an address up to a line feed.
* `not_isBlank_of_spellsEmail`: an address has no white space, so the line feed is none of its own.
-/

namespace SampleSchema.Format

/-! ## The language -/

/-- The letters of ASCII. -/
def IsAsciiLetter (c : Char) : Prop :=
  'a' ≤ c ∧ c ≤ 'z' ∨ 'A' ≤ c ∧ c ≤ 'Z'

/-- The digits of ASCII. -/
def IsAsciiDigit (c : Char) : Prop :=
  '0' ≤ c ∧ c ≤ '9'

/-- The texts that are put together as an address, with nothing before and nothing behind. -/
inductive SpellsEmail : List Char → Prop where
  | intro {mailbox domain label : List Char} (hmailbox : mailbox ≠ [])
      (hmailboxChars : ∀ c ∈ mailbox,
        IsAsciiLetter c ∨ IsAsciiDigit c ∨ c ∈ ['.', '_', '%', '+', '-'])
      (hdomain : domain ≠ [])
      (hdomainChars : ∀ c ∈ domain, IsAsciiLetter c ∨ IsAsciiDigit c ∨ c ∈ ['.', '-'])
      (hlabel : 2 ≤ label.length) (hlabelChars : ∀ c ∈ label, IsAsciiLetter c) :
      SpellsEmail (mailbox ++ '@' :: (domain ++ '.' :: label))

/-! ## Characters -/

theorem isAlpha_iff {c : Char} : c.isAlpha = true ↔ IsAsciiLetter c := by
  simp only [Char.isAlpha, Char.isUpper, Char.isLower, IsAsciiLetter, Char.le_def, Bool.or_eq_true,
    Bool.and_eq_true, decide_eq_true_eq]
  exact or_comm

theorem isAlphanum_iff {c : Char} : c.isAlphanum = true ↔ IsAsciiLetter c ∨ IsAsciiDigit c := by
  simp only [Char.isAlphanum, Bool.or_eq_true, isAlpha_iff, Char.isDigit, IsAsciiDigit, Char.le_def,
    Bool.and_eq_true, decide_eq_true_eq, ge_iff_le]

theorem isMailboxChar_iff {c : Char} :
    isMailboxChar c = true ↔
      IsAsciiLetter c ∨ IsAsciiDigit c ∨ c ∈ ['.', '_', '%', '+', '-'] := by
  simp only [isMailboxChar, Bool.or_eq_true, isAlphanum_iff, beq_iff_eq, List.mem_cons,
    List.not_mem_nil, or_false, or_assoc]

theorem isDomainChar_iff {c : Char} :
    isDomainChar c = true ↔ IsAsciiLetter c ∨ IsAsciiDigit c ∨ c ∈ ['.', '-'] := by
  simp only [isDomainChar, Bool.or_eq_true, isAlphanum_iff, beq_iff_eq, List.mem_cons,
    List.not_mem_nil, or_false, or_assoc]

/-- No character of an address is white space: all are printable characters of ASCII. -/
theorem not_isBlank_of_ascii {c : Char} (h : IsAsciiLetter c ∨ IsAsciiDigit c) :
    Text.isBlank c = false := by
  have hbounds : 48 ≤ c.toNat ∧ c.toNat ≤ 122 := by
    simp only [IsAsciiLetter, IsAsciiDigit, Char.le_def, UInt32.le_iff_toNat_le] at h
    change ((97 ≤ c.toNat ∧ c.toNat ≤ 122) ∨ 65 ≤ c.toNat ∧ c.toNat ≤ 90) ∨
      48 ≤ c.toNat ∧ c.toNat ≤ 57 at h
    omega
  simp only [Text.isBlank, Bool.or_eq_false_iff, Bool.and_eq_false_iff, decide_eq_false_iff_not,
    beq_eq_false_iff_ne]
  omega

/-! ## Domains -/

/-- Cutting at the last dot finds the label, as a label has no dot. -/
theorem isDomain_iff {cs : List Char} :
    isDomain cs = true ↔ ∃ domain label, cs = domain ++ '.' :: label ∧ domain ≠ [] ∧
      (∀ c ∈ domain, isDomainChar c = true) ∧ 2 ≤ label.length ∧
      ∀ c ∈ label, c.isAlpha = true := by
  constructor
  · intro h
    unfold isDomain at h
    split at h
    · rename_i domain label hcut
      simp only [Bool.and_eq_true, List.all_eq_true, Bool.not_eq_true', List.isEmpty_eq_false_iff,
        decide_eq_true_eq] at h
      obtain ⟨⟨⟨hne, hdomain⟩, hlength⟩, hlabel⟩ := h
      exact ⟨domain, label, (Text.cutLast?_eq_some_iff.mp hcut).2, hne, hdomain, hlength, hlabel⟩
    · exact nomatch h
  · rintro ⟨domain, label, rfl, hne, hdomain, hlength, hlabel⟩
    have hdot : '.' ∉ label := fun hmem => absurd (hlabel '.' hmem) (by decide)
    rw [isDomain, Text.cutLast?_eq_some_iff.mpr ⟨hdot, rfl⟩]
    simp only [Bool.and_eq_true, List.all_eq_true, Bool.not_eq_true', List.isEmpty_eq_false_iff,
      decide_eq_true_eq]
    exact ⟨⟨⟨hne, hdomain⟩, hlength⟩, hlabel⟩

/-! ## Whole addresses -/

/-- Whatever the cut at the first at sign leaves is an address: there is one at sign only. -/
theorem spellsEmail_iff {cs : List Char} :
    SpellsEmail cs ↔ ∃ mailbox behind, Text.cutFirst? '@' cs = some (mailbox, behind) ∧
      mailbox ≠ [] ∧ (∀ c ∈ mailbox, isMailboxChar c = true) ∧ isDomain behind = true := by
  constructor
  · rintro ⟨hmailbox, hmailboxChars, hdomain, hdomainChars, hlabel, hlabelChars⟩
    rename_i mailbox domain label
    have hchars : ∀ c ∈ mailbox, isMailboxChar c = true :=
      fun c hc => isMailboxChar_iff.mpr (hmailboxChars c hc)
    have hat : '@' ∉ mailbox := fun hmem => absurd (hchars '@' hmem) (by decide)
    refine ⟨mailbox, domain ++ '.' :: label, Text.cutFirst?_eq_some_iff.mpr ⟨hat, rfl⟩, hmailbox,
      hchars, isDomain_iff.mpr ⟨domain, label, rfl, hdomain, ?_, hlabel, ?_⟩⟩
    · exact fun c hc => isDomainChar_iff.mpr (hdomainChars c hc)
    · exact fun c hc => isAlpha_iff.mpr (hlabelChars c hc)
  · rintro ⟨mailbox, behind, hcut, hmailbox, hchars, hbehind⟩
    obtain ⟨domain, label, rfl, hdomain, hdomainChars, hlabel, hlabelChars⟩ :=
      isDomain_iff.mp hbehind
    obtain ⟨-, rfl⟩ := Text.cutFirst?_eq_some_iff.mp hcut
    refine .intro hmailbox (fun c hc => isMailboxChar_iff.mp (hchars c hc)) hdomain ?_ hlabel ?_
    · exact fun c hc => isDomainChar_iff.mp (hdomainChars c hc)
    · exact fun c hc => isAlpha_iff.mp (hlabelChars c hc)

theorem isEmail_iff_dropFinalLineFeed {s : String} :
    isEmail s = true ↔ SpellsEmail (Text.dropFinalLineFeed s.toList) := by
  rw [spellsEmail_iff, isEmail]
  cases hcut : Text.cutFirst? '@' (Text.dropFinalLineFeed s.toList) with
  | none => simp
  | some cut =>
    obtain ⟨mailbox, behind⟩ := cut
    simp [and_assoc]

theorem not_isBlank_of_spellsEmail {cs : List Char} (h : SpellsEmail cs) :
    ∀ c ∈ cs, Text.isBlank c = false := by
  obtain ⟨-, hmailbox, -, hdomain, -, hlabel⟩ := h
  have hmarks : ∀ c ∈ ['.', '_', '%', '+', '-', '@'], Text.isBlank c = false := by
    simp [Text.isBlank]
  simp only [List.forall_mem_append, List.forall_mem_cons]
  refine ⟨fun c hc => ?_, hmarks '@' (by decide), fun c hc => ?_, hmarks '.' (by decide),
    fun c hc => not_isBlank_of_ascii (.inl (hlabel c hc))⟩
  · rcases hmailbox c hc with hletter | hdigit | hmark
    · exact not_isBlank_of_ascii (.inl hletter)
    · exact not_isBlank_of_ascii (.inr hdigit)
    · exact hmarks c (List.mem_append_left ['@'] hmark)
  · rcases hdomain c hc with hletter | hdigit | hmark
    · exact not_isBlank_of_ascii (.inl hletter)
    · exact not_isBlank_of_ascii (.inr hdigit)
    · have hsub : ['.', '-'] ⊆ ['.', '_', '%', '+', '-', '@'] := by decide
      exact hmarks c (hsub hmark)

theorem newline_notMem_of_spellsEmail {cs : List Char} (h : SpellsEmail cs) : '\n' ∉ cs :=
  fun hmem => absurd (not_isBlank_of_spellsEmail h '\n' hmem) (by decide)

theorem spellsEmail_dropFinalLineFeed_iff {cs : List Char} :
    SpellsEmail (Text.dropFinalLineFeed cs) ↔
      SpellsEmail cs ∨ ∃ address, SpellsEmail address ∧ cs = address ++ ['\n'] := by
  unfold Text.dropFinalLineFeed
  split
  · rename_i hlast
    have hcs : cs = cs.dropLast ++ ['\n'] := (List.dropLast_append_getLast? '\n' hlast).symm
    constructor
    · exact fun h => .inr ⟨cs.dropLast, h, hcs⟩
    · rintro (h | ⟨address, h, rfl⟩)
      · exact absurd (List.mem_of_getLast? hlast) (newline_notMem_of_spellsEmail h)
      · rwa [List.dropLast_concat]
  · rename_i hlast
    constructor
    · exact .inl
    · rintro (h | ⟨address, -, rfl⟩)
      · exact h
      · exact absurd List.getLast?_concat hlast

theorem isEmail_iff_spellsEmail {s : String} :
    isEmail s = true ↔
      SpellsEmail s.toList ∨ ∃ address, SpellsEmail address ∧ s.toList = address ++ ['\n'] := by
  rw [isEmail_iff_dropFinalLineFeed, spellsEmail_dropFinalLineFeed_iff]

/-- **Which texts are taken for an email address.** A text is, exactly if it is an address, or an
address and one line feed behind it. No address holds any white space, so this line feed is all the
white space that there can be. -/
theorem isEmail_iff {s : String} :
    (isEmail s = true ↔
      SpellsEmail s.toList ∨ ∃ address, SpellsEmail address ∧ s.toList = address ++ ['\n']) ∧
    ∀ address, SpellsEmail address → ∀ c ∈ address, Text.isBlank c = false :=
  ⟨isEmail_iff_spellsEmail, fun _ => not_isBlank_of_spellsEmail⟩

/-- So a text with a line feed can be taken for an address, though it is none. -/
theorem not_spellsEmail_finalLineFeed :
    isEmail "a@b.co\n" = true ∧ '\n' ∈ "a@b.co\n".toList ∧ ¬ SpellsEmail "a@b.co\n".toList := by
  have hnewline : '\n' ∈ "a@b.co\n".toList := by decide
  exact ⟨by decide, hnewline, fun h => newline_notMem_of_spellsEmail h hnewline⟩

end SampleSchema.Format
