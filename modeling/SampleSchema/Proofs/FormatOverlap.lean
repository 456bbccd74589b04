import SampleSchema.Format.Detector
import SampleSchema.Proofs.EmailTexts
import SampleSchema.Proofs.Failure
import SampleSchema.Proofs.Ipv6Texts
import SampleSchema.Proofs.UriTexts
/-!
# Where the known formats overlap

Every known format has a mark, a character that all of its texts hold, and an alphabet. Of two formats
one nearly always has a mark that the alphabet of the other lacks, and then no text has both
(`Lettered.not_accepts`). The two kinds of internet addresses are the exception, and they share
the texts that map an address of the old kind (`isIpv4_iff`).

`Detector.isMappedText_of_accepts` and `Detector.accepts_iff_of_isMappedText` say this of the known
formats by name.
-/

namespace SampleSchema

namespace Format

/-! ## Marks and alphabets -/

/-- A format with a character that is in each of its texts, and with the characters that can be
in them. -/
structure Lettered (accepts : String → Bool) (mark : Char) (isLetter : Char → Bool) : Prop where
  mark_mem : ∀ {s : String}, accepts s = true → mark ∈ s.toList
  isLetter_of_mem : ∀ {s : String}, accepts s = true → ∀ c ∈ s.toList, isLetter c = true

theorem Lettered.not_accepts {accepts other : String → Bool} {mark mark' : Char}
    {isLetter isLetter' : Char → Bool} (h : Lettered accepts mark isLetter)
    (h' : Lettered other mark' isLetter') (hmark : isLetter' mark = false) {s : String}
    (hs : accepts s = true) : ¬ other s = true := by
  intro hother
  have hletter := h'.isLetter_of_mem hother mark (h.mark_mem hs)
  rw [hmark] at hletter
  exact nomatch hletter

/-! ## Timestamps -/

def isTimestampLetter (c : Char) : Bool :=
  c.isDigit || c == '-' || c == 'T' || c == ':' || c == '.' || c == '+' || c == 'Z'

theorem isTimestampLetter_of_isDigit {cs : List Char} (h : ∀ c ∈ cs, c.isDigit = true) :
    ∀ c ∈ cs, isTimestampLetter c = true := by
  intro c hc
  simp [isTimestampLetter, h c hc]

theorem lettered_isDateTime : Lettered isDateTime 'T' isTimestampLetter where
  mark_mem := by
    intro s hs
    obtain ⟨year, month, day, hour, minute, second, digits, fraction, offset, htext, -⟩ :=
      exists_timestampText_of_isDateTime hs
    rw [htext]
    simp [timestampText]
  isLetter_of_mem := by
    intro s hs
    obtain ⟨year, month, day, hour, minute, second, digits, fraction, offset, htext, hfraction,
      hoffset, -⟩ := exists_timestampText_of_isDateTime hs
    have hnumber : ∀ {width n : Nat}, ∀ c ∈ padded width n, isTimestampLetter c = true :=
      isTimestampLetter_of_isDigit isDigit_of_mem_padded
    have hfraction : ∀ c ∈ fraction, isTimestampLetter c = true := by
      cases hfraction with
      | none => exact List.forall_mem_nil _
      | point _ hdigits =>
        exact List.forall_mem_cons.mpr ⟨rfl, isTimestampLetter_of_isDigit hdigits⟩
    have hoffset : ∀ c ∈ offset, isTimestampLetter c = true := by
      cases hoffset with
      | utc => exact List.forall_mem_singleton.mpr rfl
      | shifted hsign _ _ =>
        refine List.forall_mem_cons.mpr ⟨?_, List.forall_mem_append.mpr
          ⟨hnumber, List.forall_mem_cons.mpr ⟨rfl, hnumber⟩⟩⟩
        rcases hsign with rfl | rfl
        · rfl
        · rfl
    rw [htext]
    simp only [timestampText, List.forall_mem_append, List.forall_mem_cons]
    exact ⟨hnumber, rfl, hnumber, rfl, hnumber, rfl, hnumber, rfl, hnumber, rfl, hnumber, hfraction,
      hoffset⟩

/-! ## Email addresses -/

def isEmailLetter (c : Char) : Bool :=
  isMailboxChar c || c == '@' || isDomainChar c || c == '\n'

theorem isEmailLetter_of_spellsEmail {cs : List Char} (h : SpellsEmail cs) :
    ∀ c ∈ cs, isEmailLetter c = true := by
  obtain ⟨-, hmailbox, -, hdomain, -, hlabel⟩ := h
  have hdomainChar : ∀ {c : Char}, isDomainChar c = true → isEmailLetter c = true := by
    intro c hc
    simp [isEmailLetter, hc]
  refine List.forall_mem_append.mpr ⟨fun c hc => ?_, List.forall_mem_cons.mpr ⟨rfl,
    List.forall_mem_append.mpr ⟨fun c hc => ?_, List.forall_mem_cons.mpr ⟨rfl, fun c hc => ?_⟩⟩⟩⟩
  · simp [isEmailLetter, isMailboxChar_iff.mpr (hmailbox c hc)]
  · exact hdomainChar (isDomainChar_iff.mpr (hdomain c hc))
  · exact hdomainChar (isDomainChar_iff.mpr (.inl (hlabel c hc)))

theorem at_mem_of_spellsEmail {cs : List Char} (h : SpellsEmail cs) : '@' ∈ cs := by
  obtain ⟨-, -, -, -, -, -⟩ := h
  exact List.mem_append_right _ List.mem_cons_self

theorem lettered_isEmail : Lettered isEmail '@' isEmailLetter where
  mark_mem := by
    intro s hs
    rcases isEmail_iff_spellsEmail.mp hs with haddress | ⟨address, haddress, htext⟩
    · exact at_mem_of_spellsEmail haddress
    · rw [htext]
      exact List.mem_append_left _ (at_mem_of_spellsEmail haddress)
  isLetter_of_mem := by
    intro s hs
    rcases isEmail_iff_spellsEmail.mp hs with haddress | ⟨address, haddress, htext⟩
    · exact isEmailLetter_of_spellsEmail haddress
    · rw [htext]
      exact List.forall_mem_append.mpr
        ⟨isEmailLetter_of_spellsEmail haddress, List.forall_mem_singleton.mpr rfl⟩

/-! ## Identifiers -/

def isUuidLetter (c : Char) : Bool :=
  isHexDigit c || c == '-'

theorem forall₂_of_fitsShape {tests : List (Char → Bool)} {cs : List Char}
    (h : fitsShape tests cs = true) : List.Forall₂ (fun test c => test c = true) tests cs := by
  induction tests generalizing cs with
  | nil =>
    cases cs with
    | nil => exact .nil
    | cons c cs => exact nomatch h
  | cons test tests ih =>
    cases cs with
    | nil => exact nomatch h
    | cons c cs =>
      obtain ⟨hc, hcs⟩ := Bool.and_eq_true_iff.mp h
      exact .cons hc (ih hcs)

theorem isUuidLetter_of_test {test : Char → Bool} (htest : test ∈ uuidShape) {c : Char}
    (hc : test c = true) : isUuidLetter c = true := by
  have hkinds : test = isHexDigit ∨ test = (· == '-') ∨ test = isUuidVersion ∨
      test = isUuidVariant := by
    simp only [uuidShape, List.mem_append, List.mem_cons, List.mem_replicate, List.not_mem_nil,
      or_false] at htest
    tauto
  rcases hkinds with rfl | rfl | rfl | rfl
  · simp [isUuidLetter, hc]
  · simp [isUuidLetter, hc]
  · -- a version is a digit
    have hbounds : 49 ≤ c.toNat ∧ c.toNat ≤ 53 := by
      simpa [isUuidVersion, Char.le_def, UInt32.le_iff_toNat_le] using hc
    have hdigit : c.isDigit = true := Text.isDigit_iff_bounds.mpr (by omega)
    simp [isUuidLetter, isHexDigit, hdigit]
  · simp only [isUuidVariant, Bool.or_eq_true, beq_iff_eq] at hc
    rcases hc with ((((rfl | rfl) | rfl) | rfl) | rfl) | rfl
    all_goals rfl

theorem lettered_isUuid : Lettered isUuid '-' isUuidLetter where
  mark_mem := by
    intro s hs
    have hhyphen : (· == '-') ∈ uuidShape := by simp [uuidShape]
    obtain ⟨c, hc, htest⟩ := exists_of_mem_left (forall₂_of_fitsShape hs) hhyphen
    rw [← eq_of_beq htest]
    exact hc
  isLetter_of_mem := by
    intro s hs c hc
    obtain ⟨test, htest, hfits⟩ := exists_of_mem_right (forall₂_of_fitsShape hs) hc
    exact isUuidLetter_of_test htest hfits

/-! ## Internet addresses -/

def isAddressLetter (c : Char) : Bool :=
  isHexDigit c || c == ':' || c == '.'

theorem isAddressLetter_of_isHexDigit {cs : List Char} (h : ∀ c ∈ cs, isHexDigit c = true) :
    ∀ c ∈ cs, isAddressLetter c = true := by
  intro c hc
  simp [isAddressLetter, h c hc]

theorem isAddressLetter_of_mem_quadText {a b c d : Nat} :
    ∀ x ∈ quadText [a, b, c, d], isAddressLetter x = true := by
  intro x hx
  rcases mem_quadText_iff.mp hx with rfl | ⟨n, -, hn⟩
  · rfl
  · simp [isAddressLetter, isHexDigit, Json.isDigit_of_mem_toDigits x hn]

theorem isAddressLetter_of_spellsGroups {dotted : Bool} {cs : List Char} {values : List Nat}
    (h : SpellsGroups dotted cs values) : ∀ c ∈ cs, isAddressLetter c = true := by
  induction h with
  | one h => exact isAddressLetter_of_isHexDigit (of_group?_eq_some h).2
  | quad hdotted h => exact isAddressLetter_of_mem_quadText
  | cons h _ ih =>
    exact List.forall_mem_append.mpr
      ⟨isAddressLetter_of_isHexDigit (of_group?_eq_some h).2, List.forall_mem_cons.mpr ⟨rfl, ih⟩⟩

theorem isAddressLetter_of_spellsSide {dotted : Bool} {cs : List Char} {values : List Nat}
    (h : SpellsSide dotted cs values) : ∀ c ∈ cs, isAddressLetter c = true := by
  cases h with
  | nothing => exact List.forall_mem_nil _
  | groups h => exact isAddressLetter_of_spellsGroups h

theorem isAddressLetter_of_spellsIpv6 {cs : List Char} {groups : List Nat}
    (h : SpellsIpv6 cs groups) : ∀ c ∈ cs, isAddressLetter c = true := by
  cases h with
  | full h _ => exact isAddressLetter_of_spellsGroups h
  | short hhigh hlow _ =>
    exact List.forall_mem_append.mpr ⟨isAddressLetter_of_spellsSide hhigh,
      List.forall_mem_cons.mpr ⟨rfl, List.forall_mem_cons.mpr
        ⟨rfl, isAddressLetter_of_spellsSide hlow⟩⟩⟩

theorem colon_mem_of_spellsIpv6 {cs : List Char} {groups : List Nat} (h : SpellsIpv6 cs groups) :
    ':' ∈ cs := by
  cases h with
  | full h hlength =>
    have hcolons := length_le_of_spellsGroups h
    exact List.count_pos_iff.mp (by omega)
  | short _ _ _ => exact List.mem_append_right _ List.mem_cons_self

theorem lettered_isIpv6 : Lettered isIpv6 ':' isAddressLetter where
  mark_mem := by
    intro s hs
    obtain ⟨groups, hspells⟩ := isIpv6_iff.mp hs
    exact colon_mem_of_spellsIpv6 hspells
  isLetter_of_mem := by
    intro s hs
    obtain ⟨groups, hspells⟩ := isIpv6_iff.mp hs
    exact isAddressLetter_of_spellsIpv6 hspells

theorem lettered_isIpv4 : Lettered isIpv4 '.' isAddressLetter where
  mark_mem := by
    intro s hs
    rcases isIpv4_iff.mp hs with ⟨octets, hoctets, htext⟩ | ⟨before, a, b, c, d, -, htext, -⟩
    · obtain ⟨a, b, c, d, rfl⟩ := hoctets.exists_eq
      rw [htext]
      exact mem_quadText_iff.mpr (.inl rfl)
    · rw [htext]
      exact List.mem_append_right _ (List.mem_cons_of_mem _ (mem_quadText_iff.mpr (.inl rfl)))
  isLetter_of_mem := by
    intro s hs
    rcases isIpv4_iff.mp hs with ⟨octets, hoctets, htext⟩ | ⟨before, a, b, c, d, -, -, hspells⟩
    · obtain ⟨a, b, c, d, rfl⟩ := hoctets.exists_eq
      rw [htext]
      exact isAddressLetter_of_mem_quadText
    · exact isAddressLetter_of_spellsIpv6 hspells

/-- Of the texts that are addresses of version four, those that are also of version six map one. -/
theorem isMappedText_of_isIpv6 {s : String} (h : isIpv6 s = true) (h' : isIpv4 s = true) :
    IsMappedText s.toList := by
  rcases isIpv4_iff.mp h' with ⟨octets, hoctets, htext⟩ | hmapped
  · obtain ⟨a, b, c, d, rfl⟩ := hoctets.exists_eq
    have hcolon := lettered_isIpv6.mark_mem h
    rw [htext] at hcolon
    exact absurd hcolon not_colon_mem_quadText
  · exact hmapped

/-! ## Addresses of web and file transfer -/

theorem lettered_isUri : Lettered isUri '/' fun _ => true where
  mark_mem := by
    intro s hs
    obtain ⟨-, -, authority, hparts, -⟩ := isUri_iff_parts.mp hs
    obtain ⟨scheme, rest, hlaid⟩ := exists_isLaidOut_iff.mp hparts
    rw [hlaid.text]
    simp
  isLetter_of_mem := fun _ _ _ => rfl

end Format

/-! ## Known formats -/

namespace Detector

open Format

/-- A known format with its mark and its alphabet. -/
structure Signed where
  detector : Detector
  mark : Char
  isLetter : Char → Bool
  lettered : Lettered detector.accepts mark isLetter

/-- The known formats. -/
def signed : List Signed :=
  [⟨⟨.str "date-time", isDateTime⟩, 'T', isTimestampLetter, lettered_isDateTime⟩,
   ⟨⟨.str "email", isEmail⟩, '@', isEmailLetter, lettered_isEmail⟩,
   ⟨⟨.str "uuid", isUuid⟩, '-', isUuidLetter, lettered_isUuid⟩,
   ⟨⟨.str "ipv6", isIpv6⟩, ':', isAddressLetter, lettered_isIpv6⟩,
   ⟨⟨.str "ipv4", isIpv4⟩, '.', isAddressLetter, lettered_isIpv4⟩,
   ⟨⟨.str "uri", isUri⟩, '/', fun _ => true, lettered_isUri⟩]

theorem map_detector_signed : signed.map (·.detector) = known := rfl

/-- Two formats with different marks are told apart by one of the marks, unless they are the two kinds
of internet addresses. -/
theorem separated_signed : ∀ a ∈ signed, ∀ b ∈ signed, a.mark ≠ b.mark →
    (b.isLetter a.mark = false ∨ a.isLetter b.mark = false) ∨
      (a.mark = ':' ∧ b.mark = '.' ∨ a.mark = '.' ∧ b.mark = ':') := by
  decide

theorem name_eq_of_mark_eq : ∀ a ∈ signed, ∀ b ∈ signed, a.mark = b.mark →
    a.detector.name = b.detector.name := by
  simp [signed]

theorem detector_of_mark : ∀ a ∈ signed,
    (a.mark = ':' → a.detector = ⟨.str "ipv6", isIpv6⟩) ∧
      (a.mark = '.' → a.detector = ⟨.str "ipv4", isIpv4⟩) := by
  simp [signed]

/-- Two known formats that have a text in common are the two kinds of internet addresses. -/
theorem isMappedText_of_accepts {d e : Detector} (hd : d ∈ known) (he : e ∈ known)
    (hne : d.name ≠ e.name) {s : String} (hs : d.accepts s = true) (hs' : e.accepts s = true) :
    (d.name = .str "ipv6" ∧ e.name = .str "ipv4" ∨ d.name = .str "ipv4" ∧ e.name = .str "ipv6") ∧
      IsMappedText s.toList := by
  rw [← map_detector_signed] at hd he
  obtain ⟨a, ha, rfl⟩ := List.mem_map.mp hd
  obtain ⟨b, hb, rfl⟩ := List.mem_map.mp he
  have hmark : a.mark ≠ b.mark := mt (name_eq_of_mark_eq a ha b hb) hne
  rcases separated_signed a ha b hb hmark with (hlacks | hlacks) | ⟨hcolon, hdot⟩ | ⟨hdot, hcolon⟩
  · exact absurd hs' (a.lettered.not_accepts b.lettered hlacks hs)
  · exact absurd hs (b.lettered.not_accepts a.lettered hlacks hs')
  · rw [(detector_of_mark a ha).1 hcolon] at hs ⊢
    rw [(detector_of_mark b hb).2 hdot] at hs' ⊢
    exact ⟨.inl ⟨rfl, rfl⟩, isMappedText_of_isIpv6 hs hs'⟩
  · rw [(detector_of_mark a ha).2 hdot] at hs ⊢
    rw [(detector_of_mark b hb).1 hcolon] at hs' ⊢
    exact ⟨.inr ⟨rfl, rfl⟩, isMappedText_of_isIpv6 hs' hs⟩

/-- A text that maps an address of version four has these two formats and no other. -/
theorem accepts_iff_of_isMappedText {s : String} (h : IsMappedText s.toList) {d : Detector}
    (hd : d ∈ known) : d.accepts s = true ↔ d.name = .str "ipv6" ∨ d.name = .str "ipv4" := by
  have hnew : isIpv6 s = true := by
    obtain ⟨before, a, b, c, d, -, -, hspells⟩ := h
    exact isIpv6_iff.mpr ⟨_, hspells⟩
  have hold : isIpv4 s = true := isIpv4_iff.mpr (.inr h)
  constructor
  · intro hs
    by_cases hname : d.name = .str "ipv6"
    · exact .inl hname
    · have hmem : ⟨.str "ipv6", isIpv6⟩ ∈ known := by simp [known]
      obtain ⟨⟨hd6, -⟩ | ⟨hd4, -⟩, -⟩ := isMappedText_of_accepts hd hmem hname hs hnew
      · exact absurd hd6 hname
      · exact .inr hd4
  · simp only [known, List.mem_cons, List.not_mem_nil, or_false] at hd
    rcases hd with rfl | rfl | rfl | rfl | rfl | rfl
    all_goals simp [hnew, hold]

end Detector

end SampleSchema
