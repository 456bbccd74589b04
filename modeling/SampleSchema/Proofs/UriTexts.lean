import Mathlib
import SampleSchema.Format.Uri
/-!
# Which texts are addresses of web and file transfer

An authority is a host, with a user info before it and a port behind it. `isUri` cuts an address at
its delimiters, and then asks only that the authority is not empty, and that a host in brackets is a
literal address. Here an address is described by its parts, so that it shows which authorities have
no host.

* `IsLaidOut` and `HasHost` name the parts of an address and of its authority, and
  `HasHost.unique` says that an authority has one host at most.
* `exists_isLaidOut_iff`: the cuts find the scheme and the authority.
* `hasLiteralHost_iff`: where there are brackets, the host is looked for, and is a literal address.
* `Addresses` lists the authorities that pass, with their hosts. The last kind has none.
-/

namespace SampleSchema.Format

/-! ## The parts of an address -/

/-- The text is a scheme, whatever its case, `://`, an authority, and the rest, which begins where
the authority has to end. -/
structure IsLaidOut (cs scheme authority rest : List Char) : Prop where
  text : cs = scheme ++ "://".toList ++ authority ++ rest
  scheme : scheme.map Char.toLower ∈ uriSchemes
  authority : ∀ c ∈ authority, c ≠ '/' ∧ c ≠ '?' ∧ c ≠ '#'
  rest : ∀ c ∈ rest.head?, c = '/' ∨ c = '?' ∨ c = '#'

/-- A host with its port, if there is one. A literal address stands in brackets, the second of which
may be missing. -/
inductive NamesHost : List Char → List Char → Prop where
  | name {host port : List Char} (hname : ':' ∉ host) (hport : ∀ c ∈ port.head?, c = ':')
      (hopen : '[' ∉ host ++ port) : NamesHost (host ++ port) host
  | literal {host port : List Char} (hclose : ']' ∉ host) (hport : ∀ c ∈ port.head?, c = ':') :
      NamesHost ('[' :: (host ++ ']' :: port)) host
  | unclosed {host : List Char} (hclose : ']' ∉ host) : NamesHost ('[' :: host) host

/-- The host of an authority, behind the user info, which ends with the last at sign. -/
inductive HasHost : List Char → List Char → Prop where
  | intro {user place host : List Char} (huser : ∀ c ∈ user.getLast?, c = '@') (hat : '@' ∉ place)
      (hplace : NamesHost place host) : HasHost (user ++ place) host

/-- An authority that passes, with its host: a name, or a literal address if there are brackets. An
authority without brackets passes without a host, too, if it has anything else. -/
inductive Addresses (authority host : List Char) : Prop where
  | named (hhost : HasHost authority host) (hne : host ≠ []) (hopen : '[' ∉ authority)
      (hclose : ']' ∉ authority)
  | literal (hhost : HasHost authority host) (hne : host ≠ []) (hopen : '[' ∈ authority)
      (hclose : ']' ∈ authority) (hliteral : isLiteralAddress host = true)
  | hostless (hhost : HasHost authority host) (hnone : host = []) (hne : authority ≠ [])
      (hopen : '[' ∉ authority) (hclose : ']' ∉ authority)

/-! ## Schemes and authorities -/

/-- A scheme has letters only, so it ends before the first colon. -/
theorem isSchemeChar_of_mem {scheme : List Char} (h : scheme.map Char.toLower ∈ uriSchemes) :
    ∀ c ∈ scheme, isSchemeChar c = true := by
  have hletters : ∀ lower ∈ uriSchemes, ∀ c ∈ lower, c.isAlpha = true := by
    simp [uriSchemes]
  intro c hc
  have hlower := hletters _ h _ (List.mem_map_of_mem hc)
  rw [Char.isAlpha_toLower_eq_isAlpha] at hlower
  simp [isSchemeChar, Char.isAlphanum, hlower]

theorem takeWhile_append_of_head {p : Char → Bool} {before behind : List Char}
    (hbefore : ∀ c ∈ before, p c = true) (hbehind : ∀ c ∈ behind.head?, p c = false) :
    (before ++ behind).takeWhile p = before := by
  cases behind with
  | nil => rw [List.append_nil, List.takeWhile_eq_self_iff.mpr hbefore]
  | cons c behind => exact Text.takeWhile_append_cons hbefore (hbehind c rfl)

theorem endsAuthority_iff {c : Char} : endsAuthority c = true ↔ c = '/' ∨ c = '?' ∨ c = '#' := by
  simp [endsAuthority, or_assoc]

theorem takeWhile_authority {authority rest : List Char}
    (hauthority : ∀ c ∈ authority, c ≠ '/' ∧ c ≠ '?' ∧ c ≠ '#')
    (hrest : ∀ c ∈ rest.head?, c = '/' ∨ c = '?' ∨ c = '#') :
    (authority ++ rest).takeWhile (fun c => !endsAuthority c) = authority := by
  refine takeWhile_append_of_head (fun c hc => ?_) fun c hc => ?_
  · obtain ⟨hslash, hquestion, hhash⟩ := hauthority c hc
    simp [endsAuthority, hslash, hquestion, hhash]
  · simp [endsAuthority_iff.mpr (hrest c hc)]

/-- **The cuts find the parts.** The scheme ends at the first colon, and the authority before the
first character that ends it. -/
theorem exists_isLaidOut_iff {cs authority : List Char} :
    (∃ lower ∈ uriSchemes, schemeAndAuthority? cs = some (lower, authority)) ↔
      ∃ scheme rest, IsLaidOut cs scheme authority rest := by
  constructor
  · rintro ⟨lower, hlower, hparts⟩
    unfold schemeAndAuthority? at hparts
    split at hparts
    · rename_i scheme rest hcut
      split at hparts
      · obtain ⟨rfl, rfl⟩ := Prod.mk.inj (Option.some.inj hparts)
        refine ⟨scheme, rest.dropWhile fun c => !endsAuthority c, ⟨?_, hlower, ?_, ?_⟩⟩
        · -- the authority and the rest are what stands behind the slashes
          rw [List.append_assoc, List.takeWhile_append_dropWhile,
            (Text.cutFirst?_eq_some_iff.mp hcut).2]
          simp
        · intro c hc
          have hinside := List.all_eq_true.mp List.all_takeWhile c hc
          simpa [endsAuthority, and_assoc] using hinside
        · intro c hc
          have hends := List.head?_dropWhile_not (fun c => !endsAuthority c) rest
          rw [hc] at hends
          exact endsAuthority_iff.mp (by simpa using hends)
      · exact nomatch hparts
    · exact nomatch hparts
  · rintro ⟨scheme, rest, h⟩
    have hscheme := isSchemeChar_of_mem h.scheme
    have hcolon : ':' ∉ scheme := fun hmem => absurd (hscheme ':' hmem) (by decide)
    have hcut : Text.cutFirst? ':' cs = some (scheme, '/' :: '/' :: (authority ++ rest)) := by
      refine Text.cutFirst?_eq_some_iff.mpr ⟨hcolon, ?_⟩
      rw [h.text]
      simp
    refine ⟨_, h.scheme, ?_⟩
    simp only [schemeAndAuthority?, hcut, List.all_eq_true.mpr hscheme, if_true,
      takeWhile_authority h.authority h.rest]

/-! ## Hosts -/

theorem hostAndPort_append {user place : List Char} (huser : ∀ c ∈ user.getLast?, c = '@')
    (hat : '@' ∉ place) : hostAndPort (user ++ place) = place := by
  cases hlast : user.getLast? with
  | none =>
    obtain rfl := List.getLast?_eq_none_iff.mp hlast
    have hcut : Text.cutLast? '@' place = none := by
      rw [Text.cutLast?, Text.cutFirst?_eq_none_iff.mpr (by simpa using hat)]
      rfl
    rw [List.nil_append, hostAndPort, hcut]
  | some c =>
    obtain rfl := huser c hlast
    have hcut : Text.cutLast? '@' (user ++ place) = some (user.dropLast, place) := by
      refine Text.cutLast?_eq_some_iff.mpr ⟨hat, ?_⟩
      rw [← List.singleton_append, ← List.append_assoc,
        List.dropLast_append_getLast? '@' hlast]
    rw [hostAndPort, hcut]

theorem exists_user_hostAndPort (authority : List Char) :
    ∃ user, authority = user ++ hostAndPort authority ∧ (∀ c ∈ user.getLast?, c = '@') ∧
      '@' ∉ hostAndPort authority := by
  unfold hostAndPort
  split
  · rename_i user place hcut
    obtain ⟨hat, htext⟩ := Text.cutLast?_eq_some_iff.mp hcut
    refine ⟨user ++ ['@'], by simpa using htext, ?_, hat⟩
    intro c hc
    rw [List.getLast?_concat] at hc
    exact (Option.some.inj hc).symm
  · rename_i hcut
    refine ⟨[], rfl, nofun, ?_⟩
    rw [Text.cutLast?, Option.map_eq_none_iff, Text.cutFirst?_eq_none_iff] at hcut
    simpa using hcut

theorem hasHost_iff {authority host : List Char} :
    HasHost authority host ↔ NamesHost (hostAndPort authority) host := by
  constructor
  · rintro ⟨huser, hat, hplace⟩
    rwa [hostAndPort_append huser hat]
  · intro h
    obtain ⟨user, htext, huser, hat⟩ := exists_user_hostAndPort authority
    rw [htext]
    exact .intro huser hat h

/-- What the host has to be: all up to the second bracket behind a first one, and all up to the colon
otherwise. -/
theorem NamesHost.eq_takeWhile {place host : List Char} (h : NamesHost place host) :
    host = if place.head? = some '[' then place.tail.takeWhile (· != ']')
      else place.takeWhile (· != ':') := by
  cases h with
  | @name _ port hname hport hopen =>
    have hhead : (host ++ port).head? ≠ some '[' :=
      fun hhead => hopen (List.mem_of_head? hhead)
    rw [if_neg hhead, takeWhile_append_of_head]
    · exact fun c hc => bne_iff_ne.mpr (ne_of_mem_of_not_mem hc hname)
    · exact fun c hc => by simp [hport c hc]
  | literal hclose _ =>
    rw [List.head?_cons, if_pos rfl, List.tail_cons, takeWhile_append_of_head]
    · exact fun c hc => bne_iff_ne.mpr (ne_of_mem_of_not_mem hc hclose)
    · rintro _ ⟨⟩
      rfl
  | unclosed hclose =>
    rw [List.head?_cons, if_pos rfl, List.tail_cons, List.takeWhile_eq_self_iff.mpr]
    exact fun c hc => bne_iff_ne.mpr (ne_of_mem_of_not_mem hc hclose)

/-- An authority has one host at most. -/
theorem HasHost.unique {authority host other : List Char} (h : HasHost authority host)
    (hother : HasHost authority other) : host = other := by
  rw [hasHost_iff] at h hother
  rw [h.eq_takeWhile, ← hother.eq_takeWhile]

theorem namesHost_self {place : List Char} (hcolon : ':' ∉ place) (hopen : '[' ∉ place) :
    NamesHost place place := by
  have hnamed : NamesHost (place ++ []) place := .name hcolon nofun (by simpa using hopen)
  simpa using hnamed

/-- Without brackets, something is the host, if only the empty text. -/
theorem exists_hasHost {authority : List Char} (hopen : '[' ∉ authority) :
    ∃ host, HasHost authority host := by
  obtain ⟨user, htext, -, -⟩ := exists_user_hostAndPort authority
  have hplace : '[' ∉ hostAndPort authority := by
    intro hmem
    rw [htext] at hopen
    exact hopen (List.mem_append_right user hmem)
  simp only [hasHost_iff]
  generalize hostAndPort authority = place at hplace
  cases hcut : Text.cutFirst? ':' place with
  | none => exact ⟨place, namesHost_self (Text.cutFirst?_eq_none_iff.mp hcut) hplace⟩
  | some cut =>
    obtain ⟨host, port⟩ := cut
    obtain ⟨hcolon, rfl⟩ := Text.cutFirst?_eq_some_iff.mp hcut
    exact ⟨host, .name hcolon (by simp) hplace⟩

/-- **Where there are brackets, the host is a literal address.** -/
theorem hasLiteralHost_iff {authority : List Char} :
    hasLiteralHost authority = true ↔
      ∃ host, HasHost authority host ∧ isLiteralAddress host = true := by
  simp only [hasHost_iff, hasLiteralHost]
  generalize hostAndPort authority = place
  constructor
  · intro h
    split at h
    · rename_i before bracketed hopen
      obtain ⟨-, rfl⟩ := Text.cutFirst?_eq_some_iff.mp hopen
      split at h
      · rename_i host port hclose
        obtain ⟨hhost, rfl⟩ := Text.cutFirst?_eq_some_iff.mp hclose
        simp only [Bool.and_eq_true, List.isEmpty_iff, Bool.or_eq_true, beq_iff_eq] at h
        obtain ⟨⟨rfl, hport⟩, hliteral⟩ := h
        refine ⟨host, .literal hhost ?_, hliteral⟩
        rcases hport with rfl | hport
        · exact nofun
        · intro c hc
          rw [hport] at hc
          exact (Option.some.inj hc).symm
      · rename_i hclose
        simp only [Bool.and_eq_true, List.isEmpty_iff] at h
        obtain ⟨rfl, hliteral⟩ := h
        exact ⟨bracketed, .unclosed (Text.cutFirst?_eq_none_iff.mp hclose), hliteral⟩
    · rename_i hopen
      have hplace := Text.cutFirst?_eq_none_iff.mp hopen
      split at h
      · rename_i host port hcut
        obtain ⟨hcolon, rfl⟩ := Text.cutFirst?_eq_some_iff.mp hcut
        exact ⟨host, .name hcolon (by simp) hplace, h⟩
      · rename_i hcut
        exact ⟨place, namesHost_self (Text.cutFirst?_eq_none_iff.mp hcut) hplace, h⟩
  · rintro ⟨host, hhost, hliteral⟩
    cases hhost with
    | @name _ port hname hport hopen =>
      rw [Text.cutFirst?_eq_none_iff.mpr hopen]
      cases port with
      | nil =>
        rw [List.append_nil, Text.cutFirst?_eq_none_iff.mpr hname]
        exact hliteral
      | cons c port =>
        obtain rfl := hport c rfl
        rw [Text.cutFirst?_eq_some_iff.mpr ⟨hname, rfl⟩]
        exact hliteral
    | @literal _ port hclose hport =>
      have hcut : Text.cutFirst? ']' (host ++ ']' :: port) = some (host, port) :=
        Text.cutFirst?_eq_some_iff.mpr ⟨hclose, rfl⟩
      have hport : (port.isEmpty || port.head? == some ':') = true := by
        cases port with
        | nil => rfl
        | cons c port => simp [hport c rfl]
      simp only [Text.cutFirst?, if_true, hcut, List.isEmpty_nil, hport, hliteral, Bool.and_self]
    | unclosed hclose =>
      simp only [Text.cutFirst?, if_true, Text.cutFirst?_eq_none_iff.mpr hclose, List.isEmpty_nil,
        hliteral, Bool.and_self]

theorem ne_nil_of_isLiteralAddress {cs : List Char} (h : isLiteralAddress cs = true) : cs ≠ [] := by
  rintro rfl
  exact nomatch h

/-- The authorities that pass are those that `Addresses` lists. -/
theorem exists_addresses_iff {authority : List Char} :
    (∃ host, Addresses authority host) ↔
      authority ≠ [] ∧ hasValidBrackets authority = true := by
  constructor
  · rintro ⟨host, h⟩
    cases h with
    | named hhost hne hopen hclose =>
      refine ⟨?_, by simp [hasValidBrackets, hopen, hclose]⟩
      -- an empty authority has the empty host and no other
      rintro rfl
      exact hne (hasHost_iff.mp hhost).eq_takeWhile
    | literal hhost hne hopen hclose hliteral =>
      have hvalid := hasLiteralHost_iff.mpr ⟨host, hhost, hliteral⟩
      exact ⟨List.ne_nil_of_mem hopen, by simp [hasValidBrackets, hopen, hclose, hvalid]⟩
    | hostless _ _ hne hopen hclose =>
      exact ⟨hne, by simp [hasValidBrackets, hopen, hclose]⟩
  · rintro ⟨hne, hvalid⟩
    unfold hasValidBrackets at hvalid
    split at hvalid
    · rename_i hopen hclose
      have hopen : '[' ∉ authority := by simpa using hopen
      have hclose : ']' ∉ authority := by simpa using hclose
      obtain ⟨host, hhost⟩ := exists_hasHost hopen
      by_cases hnone : host = []
      · exact ⟨host, .hostless hhost hnone hne hopen hclose⟩
      · exact ⟨host, .named hhost hnone hopen hclose⟩
    · rename_i hopen hclose
      obtain ⟨host, hhost, hliteral⟩ := hasLiteralHost_iff.mp hvalid
      exact ⟨host, .literal hhost (ne_nil_of_isLiteralAddress hliteral) (by simpa using hopen)
        (by simpa using hclose) hliteral⟩
    · exact nomatch hvalid

/-! ## Whole addresses -/

theorem isUri_iff_parts {s : String} :
    isUri s = true ↔ (∀ c ∈ s.toList, Text.isBlank c = false) ∧
      ("http".toList <+: s.toList ∨ "ftp".toList <+: s.toList) ∧
      ∃ authority, (∃ lower ∈ uriSchemes, schemeAndAuthority? s.toList = some (lower, authority)) ∧
        (authority ≠ [] ∧ hasValidBrackets authority = true) ∧
        Text.hidesDelimiter authority = false := by
  have hblank : s.toList.any Text.isBlank = false ↔ ∀ c ∈ s.toList, Text.isBlank c = false := by
    simp
  simp only [isUri, ← List.isPrefixOf_iff_prefix, ← Bool.or_eq_true, ← hblank]
  cases schemeAndAuthority? s.toList with
  | none => simp
  | some parts =>
    obtain ⟨lower, authority⟩ := parts
    simp [and_assoc, and_left_comm]

/-- **What an address is.** A text is one exactly if it has no white space, begins with the name of a
protocol in lower case, and is laid out as a scheme, `://` and an authority that passes: with a host,
or, without brackets, with anything else, such as a port or the at sign of a user info. No character
of the authority may fold to a delimiter. An authority has no second host. -/
theorem isUri_iff {s : String} :
    (isUri s = true ↔ (∀ c ∈ s.toList, Text.isBlank c = false) ∧
      ("http".toList <+: s.toList ∨ "ftp".toList <+: s.toList) ∧
      ∃ scheme authority rest host, IsLaidOut s.toList scheme authority rest ∧
        Addresses authority host ∧ Text.hidesDelimiter authority = false) ∧
    ∀ authority host other, HasHost authority host → HasHost authority other → host = other := by
  refine ⟨?_, fun _ _ _ => HasHost.unique⟩
  rw [isUri_iff_parts]
  refine and_congr_right fun _ => and_congr_right fun _ => ?_
  constructor
  · rintro ⟨authority, hparts, hvalid, hplain⟩
    obtain ⟨scheme, rest, hlaid⟩ := exists_isLaidOut_iff.mp hparts
    obtain ⟨host, haddresses⟩ := exists_addresses_iff.mpr hvalid
    exact ⟨scheme, authority, rest, host, hlaid, haddresses, hplain⟩
  · rintro ⟨scheme, authority, rest, host, hlaid, haddresses, hplain⟩
    exact ⟨authority, exists_isLaidOut_iff.mpr ⟨scheme, rest, hlaid⟩,
      exists_addresses_iff.mp ⟨host, haddresses⟩, hplain⟩

/-- So an at sign can do for an authority, though it has no host, however the text is taken apart. -/
theorem hasHost_nil_bareAt :
    isUri "http://@" = true ∧ ∀ scheme authority rest host,
      IsLaidOut "http://@".toList scheme authority rest → HasHost authority host → host = [] := by
  refine ⟨by decide, ?_⟩
  intro scheme authority rest host hlaid hhost
  obtain ⟨lower, -, hparts⟩ := exists_isLaidOut_iff.mpr ⟨scheme, rest, hlaid⟩
  have hcut : schemeAndAuthority? "http://@".toList = some ("http".toList, ['@']) := by decide
  rw [hcut] at hparts
  obtain ⟨-, rfl⟩ := Prod.mk.inj (Option.some.inj hparts)
  exact (hasHost_iff.mp hhost).eq_takeWhile

end SampleSchema.Format
