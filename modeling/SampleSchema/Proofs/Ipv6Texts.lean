import Mathlib.Data.List.TakeWhile
import SampleSchema.Proofs.AddressTexts
/-!
# Which texts are addresses of version six

The reader finds the empty part that a double colon leaves and fills in zeros for it. Here the texts
are described as they are written: eight groups, or two sides of a double colon, either of which may
be missing, that have at most seven groups together. The last two groups may be octets.

* `SpellsGroups`, `SpellsSide` and `SpellsIpv6` are the language.
* `expandGroups?_eq_some_iff` says which parts are eight groups, and `readsParts_append_empty_iff`
  cuts the text where the empty part of a double colon is.
* `ipv6Groups?_eq_some_iff`: the reader gives the groups that a text spells, and nothing else.
* `isIpv6_iff` and `isIpv4_iff` are the two formats. `IsMappedText` are the texts that have both.
-/

namespace SampleSchema.Format

/-! ## The language -/

/-- Groups with colons between them. If dots are allowed, the last two may be written as four
octets. -/
inductive SpellsGroups (dotted : Bool) : List Char → List Nat → Prop
  | one {cs : List Char} {value : Nat} (h : group? cs = some value) : SpellsGroups dotted cs [value]
  | quad {a b c d : Nat} (hdotted : dotted = true) (h : AreOctets [a, b, c, d]) :
      SpellsGroups dotted (quadText [a, b, c, d]) [256 * a + b, 256 * c + d]
  | cons {cs rest : List Char} {value : Nat} {values : List Nat} (h : group? cs = some value)
      (hrest : SpellsGroups dotted rest values) :
      SpellsGroups dotted (cs ++ ':' :: rest) (value :: values)

/-- One side of a double colon: groups, or nothing. -/
inductive SpellsSide (dotted : Bool) : List Char → List Nat → Prop
  | nothing : SpellsSide dotted [] []
  | groups {cs : List Char} {values : List Nat} (h : SpellsGroups dotted cs values) :
      SpellsSide dotted cs values

/-- The texts of eight groups. A double colon stands for at least one group of zeros. -/
inductive SpellsIpv6 : List Char → List Nat → Prop
  | full {cs : List Char} {groups : List Nat} (h : SpellsGroups true cs groups)
      (hlength : groups.length = 8) : SpellsIpv6 cs groups
  | short {before behind : List Char} {high low : List Nat} (hhigh : SpellsSide false before high)
      (hlow : SpellsSide true behind low) (hlength : high.length + low.length ≤ 7) :
      SpellsIpv6 (before ++ ':' :: ':' :: behind)
        (high ++ List.replicate (8 - (high.length + low.length)) 0 ++ low)

/-! ## Groups from parts -/

/-- The parts of one side of a double colon. Where there is nothing, an empty part is left. -/
def sideParts (values : List Nat) : List IpPart :=
  if values.isEmpty then [.empty] else values.map .group

theorem sideParts_ne_nil (values : List Nat) : sideParts values ≠ [] := by
  cases values <;> simp [sideParts]

theorem groupValues?_eq_some_iff {parts : List IpPart} {values : List Nat} :
    groupValues? parts = some values ↔ parts = values.map .group := by
  induction parts generalizing values with
  | nil => cases values <;> simp [groupValues?]
  | cons part parts ih =>
    cases part with
    | empty => cases values <;> simp [groupValues?]
    | group value =>
      cases values with
      | nil => simp [groupValues?]
      | cons first rest => simp [groupValues?, ih, and_comm]

theorem outerGroups?_eq_some_iff {parts : List IpPart} (hne : parts ≠ []) {values : List Nat} :
    outerGroups? parts = some values ↔ parts = sideParts values := by
  unfold outerGroups?
  split
  · cases values <;> simp [sideParts]
  · rename_i hempty
    rw [groupValues?_eq_some_iff]
    cases values with
    | nil => simp_all [sideParts]
    | cons first rest => simp [sideParts]

theorem exists_sideParts (values : List Nat) :
    ∃ first rest, sideParts values = first :: rest ∧ .empty ∉ rest := by
  cases values with
  | nil => exact ⟨.empty, [], rfl, List.not_mem_nil⟩
  | cons first rest => exact ⟨.group first, rest.map .group, rfl, by simp⟩

section Expand

variable {first : IpPart} {run behind parts : List IpPart} {groups : List Nat}

/-- Where an inner part is empty, the parts before it and behind it are the two sides. -/
theorem expandGroups?_append_eq_some_iff (hrun : .empty ∉ run) :
    expandGroups? (first :: (run ++ .empty :: behind)) = some groups ↔
      ∃ high low, first :: run = sideParts high ∧ behind = sideParts low ∧
        high.length + low.length ≤ 7 ∧
        groups = high ++ List.replicate (8 - (high.length + low.length)) 0 ++ low := by
  have hgroups : ∀ part ∈ run, (part != .empty) = true := by
    intro part hpart
    simpa using ne_of_mem_of_not_mem hpart hrun
  have htake : (run ++ .empty :: behind).takeWhile (fun part => part != .empty) = run := by
    rw [List.takeWhile_append_of_pos hgroups]
    simp
  have hdrop : (run ++ .empty :: behind).dropWhile (fun part => part != .empty) =
      .empty :: behind := by
    rw [List.dropWhile_append_of_pos hgroups]
    simp
  rw [expandGroups?]
  simp only [List.take_succ_cons, List.take_zero, List.drop_succ_cons, List.drop_zero, htake, hdrop,
    List.singleton_append]
  by_cases hbehind : behind = []
  · subst hbehind
    refine iff_of_false nofun ?_
    rintro ⟨high, low, -, hlow, -⟩
    exact sideParts_ne_nil low hlow.symm
  · have hisEmpty : ¬ behind.isEmpty = true := by simpa using hbehind
    rw [if_neg hisEmpty]
    simp only [Option.bind_eq_bind, Option.bind_eq_some_iff, Option.ite_none_right_eq_some,
      Option.pure_def, Option.some.injEq, outerGroups?_eq_some_iff hbehind,
      outerGroups?_eq_some_iff (List.cons_ne_nil first run), Nat.lt_succ_iff]
    constructor
    · rintro ⟨high, hhigh, low, hlow, hlength, rfl⟩
      exact ⟨high, low, hhigh, hlow, hlength, rfl⟩
    · rintro ⟨high, low, hhigh, hlow, hlength, rfl⟩
      exact ⟨high, hhigh, low, hlow, hlength, rfl⟩

theorem expandGroups?_eq_some_iff_of_not_mem (hparts : .empty ∉ parts) :
    expandGroups? (first :: parts) = some groups ↔
      first :: parts = groups.map .group ∧ groups.length = 8 := by
  have hdrop : parts.dropWhile (fun part => part != .empty) = [] := by
    rw [List.dropWhile_eq_nil_iff]
    intro part hpart
    simpa using ne_of_mem_of_not_mem hpart hparts
  rw [expandGroups?]
  simp only [List.drop_succ_cons, List.drop_zero, hdrop, Option.bind_eq_bind,
    Option.bind_eq_some_iff, Option.ite_none_right_eq_some, Option.pure_def, Option.some.injEq,
    groupValues?_eq_some_iff]
  constructor
  · rintro ⟨values, hvalues, hlength, rfl⟩
    exact ⟨hvalues, hlength⟩
  · rintro ⟨hvalues, hlength⟩
    exact ⟨groups, hvalues, hlength, rfl⟩

end Expand

/-- A list is cut in one way only where something stands for the first time. -/
theorem eq_of_append_cons_eq {α : Type} {x : α} {before other behind rest : List α}
    (hbefore : x ∉ before) (hother : x ∉ other)
    (h : before ++ x :: behind = other ++ x :: rest) : before = other ∧ behind = rest := by
  rcases List.append_eq_append_iff.mp h with ⟨between, rfl, hrest⟩ | ⟨between, rfl, hbehind⟩
  · cases between with
    | nil => exact ⟨(List.append_nil before).symm, (List.cons.inj hrest).2⟩
    | cons y between =>
      obtain ⟨rfl, -⟩ := List.cons.inj hrest
      exact absurd (List.mem_append_right before List.mem_cons_self) hother
  · cases between with
    | nil => exact ⟨List.append_nil other, (List.cons.inj hbehind).2.symm⟩
    | cons y between =>
      obtain ⟨rfl, -⟩ := List.cons.inj hbehind
      exact absurd (List.mem_append_right other List.mem_cons_self) hbefore

/-- **Which parts are eight groups.** Either all of them are groups, or an inner one is empty and
stands for the groups that are missing. -/
theorem expandGroups?_eq_some_iff {parts : List IpPart} {groups : List Nat} :
    expandGroups? parts = some groups ↔
      parts = groups.map .group ∧ groups.length = 8 ∨
      ∃ high low, parts = sideParts high ++ .empty :: sideParts low ∧
        high.length + low.length ≤ 7 ∧
        groups = high ++ List.replicate (8 - (high.length + low.length)) 0 ++ low := by
  cases parts with
  | nil =>
    refine iff_of_false nofun ?_
    rintro (⟨hnil, hlength⟩ | ⟨high, low, hnil, -⟩)
    · rw [List.map_eq_nil_iff.mp hnil.symm] at hlength
      exact nomatch hlength
    · simp at hnil
  | cons first rest =>
    by_cases hempty : .empty ∈ rest
    · obtain ⟨run, behind, rfl, hrun⟩ := List.eq_append_cons_of_mem hempty
      have hgroups : first :: (run ++ .empty :: behind) ≠ groups.map .group := by
        intro hall
        have hmem : IpPart.empty ∈ groups.map .group := by
          rw [← hall]
          exact List.mem_cons_of_mem _ hempty
        simp at hmem
      rw [expandGroups?_append_eq_some_iff hrun]
      constructor
      · rintro ⟨high, low, hhigh, rfl, hlength, rfl⟩
        refine .inr ⟨high, low, ?_, hlength, rfl⟩
        rw [← hhigh, List.cons_append]
      · rintro (⟨hall, -⟩ | ⟨high, low, hparts, hlength, rfl⟩)
        · exact absurd hall hgroups
        · -- the first inner part that is empty is the same on both sides
          obtain ⟨head, tail, hhigh, htail⟩ := exists_sideParts high
          rw [hhigh, List.cons_append] at hparts
          obtain ⟨rfl, hinner⟩ := List.cons.inj hparts
          obtain ⟨rfl, rfl⟩ := eq_of_append_cons_eq hrun htail hinner
          exact ⟨high, low, hhigh.symm, rfl, hlength, rfl⟩
    · rw [expandGroups?_eq_some_iff_of_not_mem hempty]
      refine (or_iff_left ?_).symm
      rintro ⟨high, low, hparts, -⟩
      obtain ⟨head, tail, hhigh, -⟩ := exists_sideParts high
      rw [hhigh, List.cons_append] at hparts
      obtain ⟨rfl, hinner⟩ := List.cons.inj hparts
      exact hempty (hinner ▸ by simp)

/-! ## Parts from texts -/

section Reads

variable {dotted : Bool} {cs : List Char} {values : List Nat}

theorem readsParts_map_group_iff :
    ReadsParts dotted cs (values.map .group) ↔ SpellsGroups dotted cs values := by
  constructor
  · intro h
    generalize hparts : values.map IpPart.group = parts at h
    induction h generalizing values with
    | one h =>
      obtain ⟨value, rfl, rfl⟩ := List.map_eq_singleton_iff.mp hparts
      exact .one (ofChars?_eq_group_iff.mp h)
    | quad hdotted h =>
      obtain ⟨value, later, rfl, hvalue, hlater⟩ := List.map_eq_cons_iff.mp hparts
      obtain ⟨last, rfl, hlast⟩ := List.map_eq_singleton_iff.mp hlater
      obtain rfl := IpPart.group.inj hvalue
      obtain rfl := IpPart.group.inj hlast
      exact .quad hdotted h
    | cons h _ ih =>
      obtain ⟨value, later, rfl, rfl, hlater⟩ := List.map_eq_cons_iff.mp hparts
      exact .cons (ofChars?_eq_group_iff.mp h) (ih hlater)
  · intro h
    induction h with
    | one h => exact .one (ofChars?_eq_group_iff.mpr h)
    | quad hdotted h => exact .quad hdotted h
    | cons h _ ih => exact .cons (ofChars?_eq_group_iff.mpr h) ih

theorem readsParts_sideParts_iff :
    ReadsParts dotted cs (sideParts values) ↔ SpellsSide dotted cs values := by
  cases values with
  | nil =>
    constructor
    · intro h
      generalize hparts : sideParts [] = parts at h
      cases h with
      | one h =>
        obtain rfl := (List.cons.inj hparts).1
        rw [ofChars?_eq_empty_iff.mp h]
        exact .nothing
      | quad hdotted h => exact nomatch hparts
      | cons h hrest =>
        obtain ⟨-, rfl⟩ := List.cons.inj hparts
        exact nomatch hrest
    · rintro (_ | h)
      · exact .one (ofChars?_eq_empty_iff.mpr rfl)
      · exact nomatch h
  | cons first rest =>
    constructor
    · exact fun h => .groups (readsParts_map_group_iff.mp h)
    · rintro (_ | h)
      exact readsParts_map_group_iff.mpr h

/-- A part before an empty one is not the last, so it ends at a colon. -/
theorem exists_of_readsParts_cons {part : IpPart} {parts : List IpPart} (hempty : .empty ∈ parts)
    (h : ReadsParts dotted cs (part :: parts)) :
    ∃ first rest, cs = first ++ ':' :: rest ∧ IpPart.ofChars? first = some part ∧
      ReadsParts dotted rest parts := by
  cases h with
  | one h => exact absurd hempty List.not_mem_nil
  | quad hdotted h => simp at hempty
  | cons h hrest => exact ⟨_, _, rfl, h, hrest⟩

/-- **Where a double colon is.** An empty part with parts on both sides is read between two colons.
What stands before them has no octets. -/
theorem readsParts_append_empty_iff {before behind : List IpPart} (hbefore : before ≠ [])
    (hbehind : behind ≠ []) :
    ReadsParts true cs (before ++ .empty :: behind) ↔
      ∃ head tail, cs = head ++ ':' :: ':' :: tail ∧ ReadsParts false head before ∧
        ReadsParts true tail behind := by
  constructor
  · intro h
    induction before generalizing cs with
    | nil => contradiction
    | cons part before ih =>
      obtain ⟨first, rest, rfl, hpart, hrest⟩ := exists_of_readsParts_cons (by simp) h
      cases before with
      | nil =>
        cases hrest with
        | one _ => contradiction
        | cons hnothing htail =>
          obtain rfl := ofChars?_eq_empty_iff.mp hnothing
          exact ⟨first, _, rfl, .one hpart, htail⟩
      | cons next before =>
        obtain ⟨head, tail, rfl, hhead, htail⟩ := ih (List.cons_ne_nil next before) hrest
        refine ⟨first ++ ':' :: head, tail, ?_, .cons hpart hhead, htail⟩
        rw [List.append_assoc, List.cons_append]
  · rintro ⟨head, tail, rfl, hhead, htail⟩
    have hcolons : ReadsParts true (':' :: tail) (.empty :: behind) :=
      .cons (ofChars?_eq_empty_iff.mpr rfl) htail
    induction hhead with
    | one h => exact .cons h hcolons
    | quad hdotted h => exact nomatch hdotted
    | cons h hrest ih =>
      rw [List.append_assoc, List.cons_append, List.cons_append]
      refine .cons h (ih ?_)
      rintro rfl
      exact nomatch hrest

end Reads

/-! ## Whole addresses -/

theorem length_le_of_spellsGroups {dotted : Bool} {cs : List Char} {values : List Nat}
    (h : SpellsGroups dotted cs values) : values.length ≤ cs.count ':' + 2 := by
  induction h with
  | one h => simp
  | quad hdotted h => simp
  | cons h _ ih =>
    rw [List.length_cons, List.count_append, List.count_cons_self]
    omega

theorem length_sideParts (values : List Nat) :
    (sideParts values).length = max values.length 1 := by
  cases values with
  | nil => rfl
  | cons first rest => simp [sideParts]

/-- **What an address of version six is.** -/
theorem ipv6Groups?_eq_some_iff {cs : List Char} {groups : List Nat} :
    ipv6Groups? cs = some groups ↔ SpellsIpv6 cs groups := by
  have hread : ipv6Groups? cs = some groups ↔ 2 ≤ cs.count ':' ∧
      ∃ parts, ReadsParts true cs parts ∧ parts.length ≤ 9 ∧ expandGroups? parts = some groups := by
    simp only [ipv6Groups?, Option.ite_none_left_eq_some, Option.bind_eq_bind,
      Option.bind_eq_some_iff, ipv6Parts?_eq_some_iff, Text.length_split, Nat.not_lt]
    exact and_congr_left fun _ => by omega
  rw [hread]
  constructor
  · rintro ⟨-, parts, hparts, -, hgroups⟩
    rcases expandGroups?_eq_some_iff.mp hgroups with ⟨rfl, hlength⟩ | ⟨high, low, rfl, hlength, rfl⟩
    · exact .full (readsParts_map_group_iff.mp hparts) hlength
    · obtain ⟨head, tail, rfl, hhead, htail⟩ :=
        (readsParts_append_empty_iff (sideParts_ne_nil high) (sideParts_ne_nil low)).mp hparts
      exact .short (readsParts_sideParts_iff.mp hhead) (readsParts_sideParts_iff.mp htail) hlength
  · intro h
    cases h with
    | full h hlength =>
      have hcolons := length_le_of_spellsGroups h
      refine ⟨by omega, _, readsParts_map_group_iff.mpr h, ?_,
        expandGroups?_eq_some_iff.mpr (.inl ⟨rfl, hlength⟩)⟩
      rw [List.length_map]
      omega
    | @short head tail high low hhigh hlow hlength =>
      refine ⟨?_, sideParts high ++ .empty :: sideParts low, ?_, ?_,
        expandGroups?_eq_some_iff.mpr (.inr ⟨high, low, rfl, hlength, rfl⟩)⟩
      · rw [List.count_append, List.count_cons_self, List.count_cons_self]
        omega
      · exact (readsParts_append_empty_iff (sideParts_ne_nil high) (sideParts_ne_nil low)).mpr
          ⟨head, tail, rfl, readsParts_sideParts_iff.mpr hhigh, readsParts_sideParts_iff.mpr hlow⟩
      · rw [List.length_append, List.length_cons, length_sideParts, length_sideParts]
        omega

/-! ## Octets in addresses of version six -/

theorem length_of_spellsIpv6 {cs : List Char} {groups : List Nat} (h : SpellsIpv6 cs groups) :
    groups.length = 8 := by
  cases h with
  | full h hlength => exact hlength
  | short hhigh hlow hlength =>
    rw [List.length_append, List.length_append, List.length_replicate]
    omega

/-- A dot in groups belongs to octets at their end. The colon in front tells where they start. -/
theorem exists_quad_of_dot {dotted : Bool} {cs : List Char} {values : List Nat}
    (h : SpellsGroups dotted cs values) (hdot : '.' ∈ cs) :
    dotted = true ∧ ∃ before first a b c d, AreOctets [a, b, c, d] ∧
      ':' :: cs = before ++ ':' :: quadText [a, b, c, d] ∧
      values = first ++ [256 * a + b, 256 * c + d] := by
  induction h with
  | one h => exact absurd hdot (not_mem_of_isHexDigit (of_group?_eq_some h).2).2
  | @quad a b c d hdotted h => exact ⟨hdotted, [], [], a, b, c, d, h, rfl, rfl⟩
  | @cons cs rest value values h hrest ih =>
    have hlater : '.' ∈ rest := by
      rcases List.mem_append.mp hdot with hmem | hmem
      · exact absurd hmem (not_mem_of_isHexDigit (of_group?_eq_some h).2).2
      · exact List.mem_of_ne_of_mem (by decide) hmem
    obtain ⟨hdotted, before, first, a, b, c, d, hquad, htext, rfl⟩ := ih hlater
    refine ⟨hdotted, ':' :: (cs ++ before), value :: first, a, b, c, d, hquad, ?_, rfl⟩
    rw [htext, List.cons_append, List.append_assoc]

/-- So an address with a dot ends with octets, which are its last two groups. -/
theorem exists_quad_of_spellsIpv6 {cs : List Char} {groups : List Nat} (h : SpellsIpv6 cs groups)
    (hdot : '.' ∈ cs) :
    ∃ before a b c d, AreOctets [a, b, c, d] ∧ cs = before ++ ':' :: quadText [a, b, c, d] ∧
      groups = groups.take 6 ++ [256 * a + b, 256 * c + d] := by
  have htake : ∀ {first : List Nat} {x y : Nat}, groups = first ++ [x, y] →
      groups = groups.take 6 ++ [x, y] := by
    intro first x y hgroups
    have hlength := length_of_spellsIpv6 h
    rw [hgroups, List.length_append] at hlength
    have hsix : first.length = 6 := Nat.add_right_cancel hlength
    rw [hgroups, ← hsix, List.take_left]
  cases h with
  | full h hlength =>
    obtain ⟨-, before, first, a, b, c, d, hquad, htext, hgroups⟩ := exists_quad_of_dot h hdot
    cases before with
    | nil =>
      -- octets alone are two groups
      obtain ⟨-, rfl⟩ := List.cons.inj htext
      have hcolons := length_le_of_spellsGroups h
      rw [List.count_eq_zero.mpr not_colon_mem_quadText] at hcolons
      omega
    | cons colon before =>
      obtain ⟨rfl, hcs⟩ := List.cons.inj htext
      exact ⟨before, a, b, c, d, hquad, hcs, htake hgroups⟩
  | @short head tail high low hhigh hlow hlength =>
    have htail : '.' ∈ tail := by
      rcases List.mem_append.mp hdot with hmem | hmem
      · cases hhigh with
        | nothing => exact absurd hmem List.not_mem_nil
        | groups hhigh => exact absurd (exists_quad_of_dot hhigh hmem).1 (by decide)
      · simpa using hmem
    cases hlow with
    | nothing => exact absurd htail List.not_mem_nil
    | groups hlow =>
      obtain ⟨-, before, first, a, b, c, d, hquad, htext, rfl⟩ := exists_quad_of_dot hlow htail
      refine ⟨head ++ ':' :: before, a, b, c, d, hquad, ?_, ?_⟩
      · rw [htext, List.append_assoc, List.cons_append]
      · exact htake (List.append_assoc _ _ _).symm

/-! ## Formats -/

/-- The texts that map an address of version four: addresses in `::ffff:0:0/96` of which the last two
groups are written as octets. -/
def IsMappedText (cs : List Char) : Prop :=
  ∃ before a b c d, AreOctets [a, b, c, d] ∧ cs = before ++ ':' :: quadText [a, b, c, d] ∧
    SpellsIpv6 cs [0, 0, 0, 0, 0, 0xffff, 256 * a + b, 256 * c + d]

theorem isIpv6_iff {s : String} : isIpv6 s = true ↔ ∃ groups, SpellsIpv6 s.toList groups := by
  rw [isIpv6, Option.isSome_iff_exists]
  exact exists_congr fun groups => ipv6Groups?_eq_some_iff

theorem isIpv4_iff {s : String} :
    isIpv4 s = true ↔
      (∃ octets, AreOctets octets ∧ s.toList = quadText octets) ∨ IsMappedText s.toList := by
  unfold isIpv4
  dsimp only
  constructor
  · intro h
    split at h
    · rename_i octets hoctets
      exact .inl ⟨octets, ipv4Octets?_eq_some_iff.mp hoctets⟩
    · rename_i groups _ hgroups
      simp only [Bool.and_eq_true, List.contains_iff_mem, isMappedIpv4, beq_iff_eq] at h
      have hspells := ipv6Groups?_eq_some_iff.mp hgroups
      obtain ⟨before, a, b, c, d, hquad, hcs, hlast⟩ := exists_quad_of_spellsIpv6 hspells h.1
      rw [h.2] at hlast
      rw [hlast] at hspells
      exact .inr ⟨before, a, b, c, d, hquad, hcs, hspells⟩
    · exact nomatch h
  · rintro (⟨octets, hoctets⟩ | ⟨before, a, b, c, d, -, hcs, hspells⟩)
    · rw [ipv4Octets?_eq_some_iff.mpr hoctets]
    · have hdot : s.toList.contains '.' = true := by
        rw [List.contains_iff_mem, hcs]
        exact List.mem_append_right _ (List.mem_cons_of_mem _ (mem_quadText_iff.mpr (.inl rfl)))
      rw [ipv6Groups?_eq_some_iff.mpr hspells, hdot]
      cases ipv4Octets? s.toList <;> rfl

end SampleSchema.Format
