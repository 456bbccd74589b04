import SampleSchema.Format.IpAddress
import SampleSchema.Proofs.Numerals
import SampleSchema.Proofs.Timestamps
/-!
# The parts of internet addresses

The reader of addresses cuts a text at its separators and looks at the parts. Here the parts are
described by what is written.

* `ipv4Octets?_eq_some_iff`: an address of version four is the decimal texts of four octets with dots
  between them.
* `ReadsParts` are the parts of an address of version six. An empty part is one like any other here,
  and the last part may be four octets.
* `ipv6Parts?_eq_some_iff` ties the parts to the text, one part after the other.
-/

namespace SampleSchema

/-! ## Cutting at a separator -/

namespace Text

theorem split_of_not_mem {separator : Char} {cs : List Char} (h : separator ∉ cs) :
    split separator cs = [cs] := by
  induction cs with
  | nil => rfl
  | cons c cs ih =>
    obtain ⟨hc, hcs⟩ := not_or.mp (mt List.mem_cons.mpr h)
    rw [split, if_neg (Ne.symm hc), ih hcs]

theorem split_append (separator : Char) (before behind : List Char) :
    split separator (before ++ separator :: behind) =
      split separator before ++ split separator behind := by
  induction before with
  | nil => simp [split]
  | cons c before ih =>
    rw [List.cons_append, split, split, ih]
    by_cases hc : c = separator
    · rw [if_pos hc, if_pos hc, List.cons_append]
    · rw [if_neg hc, if_neg hc]
      cases hparts : split separator before with
      | nil => exact absurd hparts (split_ne_nil separator before)
      | cons part more => rfl

/-- Parts without the separator are got back from the text that they make up. -/
theorem split_intercalate {separator : Char} {parts : List (List Char)} (hne : parts ≠ [])
    (hparts : ∀ part ∈ parts, separator ∉ part) :
    split separator ([separator].intercalate parts) = parts := by
  induction parts with
  | nil => contradiction
  | cons part parts ih =>
    obtain ⟨hpart, hparts⟩ := List.forall_mem_cons.mp hparts
    cases parts with
    | nil =>
      rw [List.intercalate_singleton]
      exact split_of_not_mem hpart
    | cons next parts =>
      have hrest := ih (List.cons_ne_nil next parts) hparts
      rw [List.intercalate_cons_cons, List.append_assoc, List.singleton_append, split_append,
        split_of_not_mem hpart, hrest]
      rfl

theorem length_split (separator : Char) (cs : List Char) :
    (split separator cs).length = cs.count separator + 1 := by
  induction cs with
  | nil => rfl
  | cons c cs ih =>
    rw [split]
    by_cases hc : c = separator
    · rw [if_pos hc, List.length_cons, ih, hc, List.count_cons_self]
    · rw [if_neg hc, List.count_cons_of_ne hc]
      cases hparts : split separator cs with
      | nil => exact absurd hparts (split_ne_nil separator cs)
      | cons part more =>
        rw [hparts] at ih
        exact ih

/-- Induction over a text along its parts. -/
theorem partsInduction (separator : Char) {motive : List Char → Prop}
    (last : ∀ cs, separator ∉ cs → motive cs)
    (cons : ∀ first rest, separator ∉ first → motive rest → motive (first ++ separator :: rest))
    (cs : List Char) : motive cs := by
  induction hn : cs.length using Nat.strongRecOn generalizing cs with
  | ind n ih =>
    cases hcut : cutFirst? separator cs with
    | none => exact last cs (cutFirst?_eq_none_iff.mp hcut)
    | some cut =>
      obtain ⟨first, rest⟩ := cut
      obtain ⟨hfirst, rfl⟩ := cutFirst?_eq_some_iff.mp hcut
      refine cons first rest hfirst (ih rest.length ?_ rest rfl)
      rw [← hn, List.length_append, List.length_cons]
      omega

end Text

namespace Format

open Json (digitsValue)

/-! ## Octets -/

/-- Digits behind a number other than zero are the last digits of the number that goes on with
them. -/
theorem toDigits_append_digits {n : Nat} (hn : 0 < n) {digits : List Char}
    (hdigits : ∀ c ∈ digits, c.isDigit = true) :
    Nat.toDigits 10 n ++ digits =
      Nat.toDigits 10 (digits.foldl (fun n c => 10 * n + (c.toNat - '0'.toNat)) n) := by
  induction digits generalizing n with
  | nil => exact List.append_nil _
  | cons c digits ih =>
    obtain ⟨hc, hdigits⟩ := List.forall_mem_cons.mp hdigits
    have hdigit : c.toNat - '0'.toNat < 10 ∧ c = Nat.digitChar (c.toNat - '0'.toNat) :=
      Timestamp.digit?_eq_some_iff.mp (if_pos hc)
    have hlast : Nat.toDigits 10 (c.toNat - '0'.toNat) = [c] := by
      rw [Nat.toDigits_of_lt_base hdigit.1, ← hdigit.2]
    calc Nat.toDigits 10 n ++ c :: digits
        = Nat.toDigits 10 n ++ Nat.toDigits 10 (c.toNat - '0'.toNat) ++ digits := by
          rw [hlast, List.append_assoc, List.singleton_append]
      _ = Nat.toDigits 10 (10 * n + (c.toNat - '0'.toNat)) ++ digits := by
          rw [Nat.toDigits_append_toDigits (by decide) hn hdigit.1]
      _ = _ := by
          rw [ih (by omega) hdigits]
          rfl

/-- Digits without a leading zero are the decimal text of their number. -/
theorem toDigits_digitsValue {c : Char} {digits : List Char}
    (hdigits : ∀ d ∈ c :: digits, d.isDigit = true) (hzero : c = '0' → digits = []) :
    Nat.toDigits 10 (digitsValue (c :: digits)) = c :: digits := by
  obtain ⟨hc, hdigits⟩ := List.forall_mem_cons.mp hdigits
  have hdigit : c.toNat - '0'.toNat < 10 ∧ c = Nat.digitChar (c.toNat - '0'.toNat) :=
    Timestamp.digit?_eq_some_iff.mp (if_pos hc)
  have hfirst : Nat.toDigits 10 (c.toNat - '0'.toNat) = [c] := by
    rw [Nat.toDigits_of_lt_base hdigit.1, ← hdigit.2]
  have hstart : digitsValue (c :: digits) =
      digits.foldl (fun n c => 10 * n + (c.toNat - '0'.toNat)) (c.toNat - '0'.toNat) := by
    rw [digitsValue, List.foldl_cons, Nat.mul_zero, Nat.zero_add]
  rw [hstart]
  by_cases hn : c.toNat - '0'.toNat = 0
  · rw [hn] at hdigit hfirst ⊢
    rw [hzero hdigit.2]
    exact hfirst
  · rw [← toDigits_append_digits (Nat.pos_of_ne_zero hn) hdigits, hfirst, List.singleton_append]

/-- An octet is read from its decimal text and from nothing else. -/
theorem octet?_eq_some_iff {cs : List Char} {n : Nat} :
    octet? cs = some n ↔ n ≤ 255 ∧ cs = Nat.toDigits 10 n := by
  have hread : octet? cs = some n ↔ cs ≠ [] ∧ cs.length ≤ 3 ∧ (∀ c ∈ cs, c.isDigit = true) ∧
      (cs.head? = some '0' → cs.length = 1) ∧ digitsValue cs ≤ 255 ∧ digitsValue cs = n := by
    simp only [octet?, Option.ite_none_left_eq_some, Option.some.injEq, Bool.not_eq_true,
      Bool.or_eq_false_iff, List.isEmpty_eq_false_iff, decide_eq_false_iff_not, Nat.not_lt,
      Bool.not_eq_false', List.all_eq_true, not_and, ne_eq, Decidable.not_not, and_assoc]
    rfl
  rw [hread]
  constructor
  · rintro ⟨hne, -, hdigits, hzero, hle, rfl⟩
    refine ⟨hle, ?_⟩
    cases cs with
    | nil => contradiction
    | cons c digits =>
      refine (toDigits_digitsValue hdigits ?_).symm
      rintro rfl
      exact List.eq_nil_of_length_eq_zero (Nat.succ.inj (hzero rfl))
  · rintro ⟨hle, rfl⟩
    have hvalue := Json.digitsValue_toDigits n
    refine ⟨Nat.toDigits_ne_nil, ?_, Json.isDigit_of_mem_toDigits, ?_, by rw [hvalue]; exact hle,
      hvalue⟩
    · rw [Nat.length_toDigits_le_iff (by decide) (by decide)]
      omega
    · intro hhead
      by_cases hn : n = 0
      · rw [hn]
        rfl
      · obtain ⟨first, later, hdigits, hfirst⟩ := Json.leadsNonzero_toDigits hn
        rw [hdigits] at hhead
        exact absurd (Option.some.inj hhead) hfirst

/-! ## Version four -/

/-- Four octets. -/
structure AreOctets (octets : List Nat) : Prop where
  length_eq : octets.length = 4
  le : ∀ n ∈ octets, n ≤ 255

theorem AreOctets.exists_eq {octets : List Nat} (h : AreOctets octets) :
    ∃ a b c d, octets = [a, b, c, d] := by
  match octets, h.length_eq with
  | [a, b, c, d], _ => exact ⟨a, b, c, d, rfl⟩

/-- The decimal texts of octets with dots between them. -/
def quadText (octets : List Nat) : List Char :=
  ['.'].intercalate (octets.map (Nat.toDigits 10))

theorem mapM_octet?_eq_some_iff {texts : List (List Char)} {octets : List Nat} :
    texts.mapM octet? = some octets ↔
      (∀ n ∈ octets, n ≤ 255) ∧ texts = octets.map (Nat.toDigits 10) := by
  induction texts generalizing octets with
  | nil => cases octets <;> simp
  | cons text texts ih =>
    cases octets with
    | nil => simp [Option.bind_eq_some_iff]
    | cons n octets =>
      simp only [List.mapM_cons, Option.bind_eq_bind, Option.bind_eq_some_iff, Option.pure_def,
        Option.some.injEq, List.cons.injEq, octet?_eq_some_iff, ih, List.forall_mem_cons,
        List.map_cons]
      constructor
      · rintro ⟨_, ⟨hn, rfl⟩, _, ⟨hoctets, rfl⟩, rfl, rfl⟩
        exact ⟨⟨hn, hoctets⟩, rfl, rfl⟩
      · rintro ⟨⟨hn, hoctets⟩, rfl, rfl⟩
        exact ⟨n, ⟨hn, rfl⟩, octets, ⟨hoctets, rfl⟩, rfl, rfl⟩

theorem isDigit_of_mem_octets {octets : List Nat} {text : List Char}
    (htext : text ∈ octets.map (Nat.toDigits 10)) : ∀ c ∈ text, c.isDigit = true := by
  obtain ⟨n, -, rfl⟩ := List.mem_map.mp htext
  exact Json.isDigit_of_mem_toDigits

/-- **What an address of version four is.** -/
theorem ipv4Octets?_eq_some_iff {cs : List Char} {octets : List Nat} :
    ipv4Octets? cs = some octets ↔ AreOctets octets ∧ cs = quadText octets := by
  have hread : ipv4Octets? cs = some octets ↔
      (Text.split '.' cs).length = 4 ∧ (Text.split '.' cs).mapM octet? = some octets :=
    Option.ite_none_right_eq_some
  rw [hread, mapM_octet?_eq_some_iff]
  constructor
  · rintro ⟨hlength, hle, hsplit⟩
    rw [hsplit, List.length_map] at hlength
    refine ⟨⟨hlength, hle⟩, ?_⟩
    rw [quadText, ← hsplit, Text.intercalate_split]
  · rintro ⟨⟨hlength, hle⟩, rfl⟩
    have hsplit : Text.split '.' (quadText octets) = octets.map (Nat.toDigits 10) := by
      refine Text.split_intercalate ?_ fun text htext hdot => ?_
      · rintro hnil
        rw [List.map_eq_nil_iff.mp hnil] at hlength
        exact nomatch hlength
      · exact absurd (isDigit_of_mem_octets htext '.' hdot) (by decide)
    rw [hsplit, List.length_map]
    exact ⟨hlength, hle, rfl⟩

theorem mem_quadText_iff {a b c d : Nat} {x : Char} :
    x ∈ quadText [a, b, c, d] ↔
      x = '.' ∨ ∃ n ∈ [a, b, c, d], x ∈ Nat.toDigits 10 n := by
  simp [quadText, List.intercalate_cons_cons, List.intercalate_singleton]
  tauto

/-! ## Parts between colons -/

theorem of_group?_eq_some {cs : List Char} {value : Nat} (h : group? cs = some value) :
    cs ≠ [] ∧ ∀ c ∈ cs, isHexDigit c = true := by
  simp only [group?, Option.ite_none_left_eq_some, Bool.not_eq_true, Bool.or_eq_false_iff,
    List.isEmpty_eq_false_iff, Bool.not_eq_false', List.all_eq_true] at h
  exact ⟨h.1.1.1, h.1.2⟩

theorem ofChars?_eq_empty_iff {cs : List Char} :
    IpPart.ofChars? cs = some .empty ↔ cs = [] := by
  cases cs with
  | nil => exact iff_of_true rfl rfl
  | cons c cs => simp [IpPart.ofChars?]

theorem ofChars?_eq_group_iff {cs : List Char} {value : Nat} :
    IpPart.ofChars? cs = some (.group value) ↔ group? cs = some value := by
  cases cs with
  | nil => exact iff_of_false nofun nofun
  | cons c cs => simp [IpPart.ofChars?]

theorem isHexDigit_of_ofChars? {cs : List Char} {part : IpPart}
    (h : IpPart.ofChars? cs = some part) : ∀ c ∈ cs, isHexDigit c = true := by
  cases part with
  | empty =>
    rw [ofChars?_eq_empty_iff.mp h]
    exact List.forall_mem_nil _
  | group value => exact (of_group?_eq_some (ofChars?_eq_group_iff.mp h)).2

theorem not_mem_of_isHexDigit {cs : List Char} (h : ∀ c ∈ cs, isHexDigit c = true) :
    ':' ∉ cs ∧ '.' ∉ cs :=
  ⟨fun hmem => absurd (h ':' hmem) (by decide), fun hmem => absurd (h '.' hmem) (by decide)⟩

/-- The parts that a text is read as. The last one may be four octets, if dots are allowed, and then it
gives two groups. -/
inductive ReadsParts (dotted : Bool) : List Char → List IpPart → Prop
  | one {cs : List Char} {part : IpPart} (h : IpPart.ofChars? cs = some part) :
      ReadsParts dotted cs [part]
  | quad {a b c d : Nat} (hdotted : dotted = true) (h : AreOctets [a, b, c, d]) :
      ReadsParts dotted (quadText [a, b, c, d]) [.group (256 * a + b), .group (256 * c + d)]
  | cons {cs rest : List Char} {part : IpPart} {parts : List IpPart}
      (h : IpPart.ofChars? cs = some part) (hrest : ReadsParts dotted rest parts) :
      ReadsParts dotted (cs ++ ':' :: rest) (part :: parts)

/-- The parts of the last text. -/
def lastParts? (cs : List Char) : Option (List IpPart) :=
  if cs.contains '.' then do
    match ← ipv4Octets? cs with
    | [a, b, c, d] => return [.group (256 * a + b), .group (256 * c + d)]
    | _ => none
  else (IpPart.ofChars? cs).map fun part => [part]

theorem ipv6Parts?_of_split {cs last : List Char} {texts : List (List Char)}
    (h : Text.split ':' cs = texts ++ [last]) :
    ipv6Parts? cs = do return (← texts.mapM IpPart.ofChars?) ++ (← lastParts? last) := by
  rw [ipv6Parts?, h]
  simp only [List.getLast?_concat, List.dropLast_concat, lastParts?]
  by_cases hdot : last.contains '.' = true
  · rw [if_pos hdot, if_pos hdot]
    cases ipv4Octets? last with
    | none => cases texts.mapM IpPart.ofChars? <;> rfl
    | some octets =>
      -- the octets are taken apart as far as the reader looks
      rcases octets with _ | ⟨a, _ | ⟨b, _ | ⟨c, _ | ⟨d, _ | ⟨e, more⟩⟩⟩⟩⟩
      all_goals cases texts.mapM IpPart.ofChars? <;> rfl
  · rw [if_neg hdot, if_neg hdot, List.mapM_append, List.mapM_cons]
    cases texts.mapM IpPart.ofChars? with
    | none => rfl
    | some parts => cases IpPart.ofChars? last <;> rfl

theorem ipv6Parts?_of_not_mem {cs : List Char} (h : ':' ∉ cs) :
    ipv6Parts? cs = lastParts? cs := by
  have hsplit : Text.split ':' cs = [] ++ [cs] := Text.split_of_not_mem h
  rw [ipv6Parts?_of_split hsplit]
  cases hlast : lastParts? cs <;> rfl

/-- The parts of a text are the one before its first colon and those behind it. -/
theorem ipv6Parts?_append {first : List Char} (h : ':' ∉ first) (rest : List Char) :
    ipv6Parts? (first ++ ':' :: rest) = do
      return (← IpPart.ofChars? first) :: (← ipv6Parts? rest) := by
  obtain hnil | ⟨texts, last, hrest⟩ := List.eq_nil_or_concat (Text.split ':' rest)
  · exact absurd hnil (Text.split_ne_nil ':' rest)
  · rw [List.concat_eq_append] at hrest
    have hsplit : Text.split ':' (first ++ ':' :: rest) = (first :: texts) ++ [last] := by
      rw [Text.split_append, Text.split_of_not_mem h, hrest]
      rfl
    rw [ipv6Parts?_of_split hrest, ipv6Parts?_of_split hsplit, List.mapM_cons]
    cases IpPart.ofChars? first with
    | none => rfl
    | some part =>
      cases texts.mapM IpPart.ofChars? with
      | none => rfl
      | some parts => cases lastParts? last <;> rfl

theorem lastParts?_eq_some_iff {cs : List Char} {parts : List IpPart} :
    lastParts? cs = some parts ↔ (∃ part, IpPart.ofChars? cs = some part ∧ parts = [part]) ∨
      ∃ a b c d, AreOctets [a, b, c, d] ∧ cs = quadText [a, b, c, d] ∧
        parts = [.group (256 * a + b), .group (256 * c + d)] := by
  unfold lastParts?
  constructor
  · intro h
    split at h
    · obtain ⟨octets, hoctets, hparts⟩ := Option.bind_eq_some_iff.mp h
      obtain ⟨hquad, rfl⟩ := ipv4Octets?_eq_some_iff.mp hoctets
      split at hparts
      · obtain rfl := Option.some.inj hparts
        exact .inr ⟨_, _, _, _, hquad, rfl, rfl⟩
      · exact nomatch hparts
    · obtain ⟨part, hpart, rfl⟩ := Option.map_eq_some_iff.mp h
      exact .inl ⟨part, hpart, rfl⟩
  · rintro (⟨part, hpart, rfl⟩ | ⟨a, b, c, d, hquad, rfl, rfl⟩)
    · have hdot : ¬ cs.contains '.' = true := by
        rw [List.contains_iff_mem]
        exact (not_mem_of_isHexDigit (isHexDigit_of_ofChars? hpart)).2
      rw [if_neg hdot, hpart]
      rfl
    · have hdot : (quadText [a, b, c, d]).contains '.' = true :=
        List.contains_iff_mem.mpr (mem_quadText_iff.mpr (.inl rfl))
      rw [if_pos hdot, ipv4Octets?_eq_some_iff.mpr ⟨hquad, rfl⟩]
      rfl

theorem not_colon_mem_quadText {a b c d : Nat} : ':' ∉ quadText [a, b, c, d] := by
  rw [mem_quadText_iff]
  rintro (hdot | ⟨n, -, hn⟩)
  · exact absurd hdot (by decide)
  · exact absurd (Json.isDigit_of_mem_toDigits ':' hn) (by decide)

/-- The parts of a text, one after the other. -/
theorem ipv6Parts?_eq_some_iff {cs : List Char} {parts : List IpPart} :
    ipv6Parts? cs = some parts ↔ ReadsParts true cs parts := by
  constructor
  · intro h
    induction cs using Text.partsInduction ':' generalizing parts with
    | last cs hcs =>
      rw [ipv6Parts?_of_not_mem hcs] at h
      rcases lastParts?_eq_some_iff.mp h with ⟨part, hpart, rfl⟩ | ⟨a, b, c, d, hquad, rfl, rfl⟩
      · exact .one hpart
      · exact .quad rfl hquad
    | cons first rest hfirst ih =>
      rw [ipv6Parts?_append hfirst] at h
      obtain ⟨part, hpart, h⟩ := Option.bind_eq_some_iff.mp h
      obtain ⟨later, hlater, h⟩ := Option.bind_eq_some_iff.mp h
      obtain rfl := Option.some.inj h
      exact .cons hpart (ih hlater)
  · intro h
    induction h with
    | @one cs part hpart =>
      have hcolon := (not_mem_of_isHexDigit (isHexDigit_of_ofChars? hpart)).1
      rw [ipv6Parts?_of_not_mem hcolon]
      exact lastParts?_eq_some_iff.mpr (.inl ⟨part, hpart, rfl⟩)
    | @quad a b c d _ hquad =>
      rw [ipv6Parts?_of_not_mem not_colon_mem_quadText]
      exact lastParts?_eq_some_iff.mpr (.inr ⟨a, b, c, d, hquad, rfl, rfl⟩)
    | cons hpart _ ih =>
      have hcolon := (not_mem_of_isHexDigit (isHexDigit_of_ofChars? hpart)).1
      rw [ipv6Parts?_append hcolon, hpart, ih]
      rfl

end Format

end SampleSchema
