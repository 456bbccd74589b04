import SampleSchema.Proofs.BareBreaks
/-!
# Texts that are torn apart

The compact text of a value has no line boundary but inside of a string. So if it is torn at one,
the first piece ends within a string, and is refused: `isTornRefused_of_hasDistinctNames` for the
reader of values, `parse_torn` for a whole text.

What stands before the string that is torn is read as it was written (`ReadsBack`), so the reader
gets there. It takes at most two steps for each character, one to begin a value and one to begin an
item or member.
-/

namespace SampleSchema

namespace Json

open Text

/-! ## Where a text is torn -/

section Torn

variable {before after : List Char} {c : Char}

theorem torn_append {first rest : List Char} (h : first ++ rest = before ++ c :: after) :
    (∃ behind, first = before ++ c :: behind) ∨
      ∃ between, before = first ++ between ∧ rest = between ++ c :: after := by
  rcases List.append_eq_append_iff.mp h with ⟨between, hbefore, hrest⟩ | ⟨behind, hfirst, hafter⟩
  · exact .inr ⟨between, hbefore, hrest⟩
  · cases behind with
    | nil => exact .inr ⟨[], by simp [hfirst], by simpa using hafter.symm⟩
    | cons d behind =>
      obtain ⟨rfl, -⟩ := List.cons.inj hafter
      exact .inl ⟨behind, hfirst⟩

/-- A piece starts like the whole, if it is not empty. -/
theorem torn_cons {first : Char} {rest : List Char} (h : first :: rest = before ++ c :: after)
    (hne : c ≠ first) : ∃ piece, before = first :: piece ∧ rest = piece ++ c :: after := by
  cases before with
  | nil => exact absurd (List.cons.inj h).1.symm hne
  | cons d piece =>
    obtain ⟨rfl, hrest⟩ := List.cons.inj h
    exact ⟨piece, rfl, hrest⟩

theorem eq_of_mem_head?_torn {first d : Char} {text rest : List Char}
    (h : first :: text ++ rest = before ++ c :: after) (hd : d ∈ before.head?) : d = first := by
  cases before with
  | nil => exact nomatch hd
  | cons e piece =>
    obtain rfl := Option.some.inj hd
    exact (List.cons.inj h).1.symm

theorem skipSpace_torn {first : Char} {text rest : List Char} (hfirst : isSpace first = false)
    (h : first :: text ++ rest = before ++ c :: after) : skipSpace before = before := by
  refine skipSpace_of_head? fun d hd => ?_
  rw [eq_of_mem_head?_torn h hd]
  exact hfirst

variable (hc : isLineEnd c = true)
include hc

theorem ne_torn_of_isOneLine {cs : List Char} (h : IsOneLine cs) : cs ≠ before ++ c :: after := by
  rintro rfl
  have hline := h c (by simp)
  rw [hc] at hline
  exact nomatch hline

/-- A quoted text is torn at one of its own characters, or not at all. -/
theorem torn_escapes {cs rest : List Char}
    (h : cs.flatMap escaped ++ '"' :: rest = before ++ c :: after) :
    (∃ some, before = List.flatMap escaped some) ∨
      ∃ behind, before = cs.flatMap escaped ++ '"' :: behind ∧ rest = behind ++ c :: after := by
  induction cs generalizing before with
  | nil =>
    obtain ⟨piece, rfl, hrest⟩ := torn_cons h (ne_of_isLineEnd hc rfl)
    exact .inr ⟨piece, rfl, hrest⟩
  | cons d cs ih =>
    rw [List.flatMap_cons, List.append_assoc] at h
    rcases torn_append h with ⟨behind, hescaped⟩ | ⟨between, rfl, hrest⟩
    · -- only a character that stands for itself is a line boundary
      have hbare : isBareBreak d = true := by
        rw [← Bool.not_eq_false]
        exact fun hd => ne_torn_of_isOneLine hc (isOneLine_escaped hd) hescaped
      rw [escaped_of_isBareBreak hbare] at hescaped
      obtain rfl : before = [] := by
        cases before with
        | nil => rfl
        | cons e piece => simp at hescaped
      exact .inl ⟨[], rfl⟩
    · rcases ih hrest with ⟨some, rfl⟩ | ⟨behind, rfl, hbehind⟩
      · exact .inl ⟨d :: some, List.flatMap_cons.symm⟩
      · exact .inr ⟨behind, by simp, hbehind⟩

theorem torn_remainder {depth : Nat} {closing : Char} (hclosing : isLineEnd closing = false)
    {parts : List (List Char)} (h : remainder [] depth closing parts = before ++ c :: after) :
    ∃ part others piece, parts = part :: others ∧ before = ',' :: piece ∧
      part ++ remainder [] depth closing others = piece ++ c :: after := by
  cases parts with
  | nil =>
    obtain ⟨piece, rfl, hrest⟩ := torn_cons h (ne_of_isLineEnd hc hclosing)
    simp at hrest
  | cons part others =>
    rw [remainder_cons] at h
    obtain ⟨piece, rfl, hrest⟩ := torn_cons h (ne_of_isLineEnd hc rfl)
    exact ⟨part, others, piece, rfl, rfl, hrest⟩

end Torn

/-! ## Steps that are refused -/

/-- The text that is read has a fault. -/
def IsRefused {α : Type} (result : Except Stop α) : Prop :=
  ∃ cause left, result = .error (.malformed cause left)

theorem IsRefused.bind {α β : Type} {first : Except Stop α} (h : IsRefused first)
    (next : α → Except Stop β) : IsRefused (first >>= next) := by
  obtain ⟨cause, left, rfl⟩ := h
  exact ⟨cause, left, rfl⟩

theorem IsRefused.map {α β : Type} {first : Except Stop α} (h : IsRefused first) (f : α → β) :
    IsRefused (first.map f) := by
  obtain ⟨cause, left, rfl⟩ := h
  exact ⟨cause, left, rfl⟩

/-- A string without its closing quote. An escape at the very end is a fault of its own. -/
theorem isRefused_scanString_escapes (halves : Text.Halves) (opening : Nat) (cs : List Char) :
    IsRefused (scanString halves opening (cs.flatMap escaped)) := by
  have hend : IsRefused (scanString halves opening []) := ⟨.openString, opening, rfl⟩
  induction cs with
  | nil => exact hend
  | cons c cs ih =>
    rw [List.flatMap_cons]
    by_cases hrest : cs.flatMap escaped = []
    · rw [hrest, List.append_nil]
      unfold escaped
      split
      iterate 7 exact ⟨.openString, opening, rfl⟩
      rename_i hquote hbackslash _ _ _ _ _
      split
      · rename_i hcontrol
        rw [hexDigits_of_control _ hcontrol]
        exact ⟨.badUnicodeEscape, 5, rfl⟩
      · rename_i hcontrol
        rw [scanString_plain opening [] hquote hbackslash hcontrol]
        exact hend.map _
    · rw [scanString_escaped opening c hrest]
      exact ih.map _

section Steps

variable {steps : Nat} {cs tail : List Char} {v : Value}

theorem isRefused_readItems_first (h : IsRefused (readValue .strict steps cs)) :
    IsRefused (readItems .strict (steps + 1) cs) := by
  rw [readItems]
  exact h.bind _

theorem isRefused_readItems_later (hread : readValue .strict steps cs = .ok (v, ',' :: tail))
    (h : IsRefused (readItems .strict steps (skipSpace tail))) :
    IsRefused (readItems .strict (steps + 1) cs) := by
  have hcomma : skipSpace (',' :: tail) = ',' :: tail := rfl
  simp only [readItems, hread, hcomma, except_ok_bind]
  exact h.bind _

theorem isRefused_readMembers_name (h : IsRefused (scanString Dialect.strict.halves (cs.length + 1) cs)) :
    IsRefused (readMembers .strict (steps + 1) ('"' :: cs)) := by
  rw [readMembers]
  exact h.bind _

section Member

variable {name : List Char}
  (hname : scanString Dialect.strict.halves (cs.length + 1) cs = .ok (name, ':' :: tail))
include hname

theorem isRefused_readMembers_value (h : IsRefused (readValue .strict steps (skipSpace tail))) :
    IsRefused (readMembers .strict (steps + 1) ('"' :: cs)) := by
  have hcolon : skipSpace (':' :: tail) = ':' :: tail := rfl
  simp only [readMembers, List.length_cons, hname, hcolon, except_ok_bind]
  exact h.bind _

theorem isRefused_readMembers_later {last : List Char}
    (hread : readValue .strict steps (skipSpace tail) = .ok (v, ',' :: last))
    (h : IsRefused (readMembers .strict steps (skipSpace last))) :
    IsRefused (readMembers .strict (steps + 1) ('"' :: cs)) := by
  have hcolon : skipSpace (':' :: tail) = ':' :: tail := rfl
  have hcomma : skipSpace (',' :: last) = ',' :: last := rfl
  simp only [readMembers, List.length_cons, hname, hcolon, hread, hcomma, except_ok_bind]
  exact h.bind _

end Member

theorem isRefused_readValue_items (hskip : skipSpace cs = cs) (hc : ']' ∉ cs.head?)
    (h : IsRefused (readItems .strict steps cs)) :
    IsRefused (readValue .strict (steps + 1) ('[' :: cs)) := by
  rw [readValue, hskip]
  split
  · exact ⟨.noValueOrBracket, 0, rfl⟩
  · exact absurd rfl hc
  · exact h.bind _

theorem isRefused_readValue_members (hskip : skipSpace cs = cs) (hc : '\x7d' ∉ cs.head?)
    (h : IsRefused (readMembers .strict steps cs)) :
    IsRefused (readValue .strict (steps + 1) ('\x7b' :: cs)) := by
  rw [readValue, hskip]
  split
  · exact ⟨.noNameOrBrace, 0, rfl⟩
  · exact absurd rfl hc
  · exact h.bind _

end Steps

/-! ## Values -/

/-- A compact text that was torn at a line boundary is refused. -/
def IsTornRefused (v : Value) : Prop :=
  ∀ ⦃depth : Nat⦄ ⦃before : List Char⦄ ⦃c : Char⦄ ⦃after : List Char⦄ ⦃steps : Nat⦄,
    printValue [] depth v = .ok (before ++ c :: after) → isLineEnd c = true →
      2 * before.length ≤ steps → IsRefused (readValue .strict steps before)

section Parts

variable {depth : Nat} {first before after : List Char} {parts : List (List Char)} {c : Char}
  (hc : isLineEnd c = true)
include hc

/-- Items that are torn apart are read up to the one that holds the line boundary. -/
theorem isRefused_readItems {items : List Value} (hread : ∀ item ∈ items, ReadsBack [] item)
    (htorn : ∀ item ∈ items, IsTornRefused item)
    (hprint : printItems [] (depth + 1) items = .ok (first :: parts))
    (h : first ++ remainder [] depth ']' parts = before ++ c :: after) {steps : Nat}
    (hsteps : 2 * before.length + 1 ≤ steps) : IsRefused (readItems .strict steps before) := by
  induction items generalizing first parts before steps with
  | nil => exact nomatch hprint
  | cons item items ih =>
    obtain ⟨hitem, hitems⟩ := List.forall_mem_cons.mp hread
    obtain ⟨htornItem, htornItems⟩ := List.forall_mem_cons.mp htorn
    obtain ⟨text, others, htexts, htext, hothers⟩ := printItems_cons_eq_ok hprint
    obtain ⟨rfl, rfl⟩ := List.cons.inj htexts
    obtain ⟨steps, rfl⟩ : ∃ more, steps = more + 1 := ⟨steps - 1, by omega⟩
    rcases torn_append h with ⟨behind, rfl⟩ | ⟨between, rfl, hrest⟩
    · exact isRefused_readItems_first (htornItem htext hc (by omega))
    · -- the item is whole, and what is torn stands behind a comma
      obtain ⟨next, later, piece, rfl, rfl, hpiece⟩ := torn_remainder hc rfl hrest
      rw [List.length_append, List.length_cons] at hsteps
      have hwhole := hitem (',' :: piece) htext (endsNumeral_cons (by decide))
        (show first.length ≤ steps by omega)
      refine isRefused_readItems_later hwhole ?_
      cases items with
      | nil => exact nomatch hothers
      | cons item' items' =>
        obtain ⟨text', others', htexts', htext', -⟩ := printItems_cons_eq_ok hothers
        obtain ⟨rfl, rfl⟩ := List.cons.inj htexts'
        obtain ⟨d, tail, rfl, hspace, -⟩ := head_text (hitems item' List.mem_cons_self) htext'
        rw [skipSpace_torn hspace hpiece]
        exact ih hitems htornItems hothers hpiece (by omega)

/-- So are members. The line boundary can also be in a name. -/
theorem isRefused_readMembers {members : List (String × Value)}
    (hread : ∀ member ∈ members, ReadsBack [] member.2)
    (htorn : ∀ member ∈ members, IsTornRefused member.2)
    (hprint : printMembers [] (depth + 1) members = .ok (first :: parts))
    (h : first ++ remainder [] depth '\x7d' parts = before ++ c :: after) {steps : Nat}
    (hsteps : 2 * before.length + 1 ≤ steps) : IsRefused (readMembers .strict steps before) := by
  induction members generalizing first parts before steps with
  | nil => exact nomatch hprint
  | cons member members ih =>
    obtain ⟨name, value⟩ := member
    obtain ⟨hvalue, hmembers⟩ := List.forall_mem_cons.mp hread
    obtain ⟨htornValue, htornMembers⟩ := List.forall_mem_cons.mp htorn
    obtain ⟨text, others, htexts, htext, hothers⟩ := printMembers_cons_eq_ok hprint
    obtain ⟨rfl, rfl⟩ := List.cons.inj htexts
    obtain ⟨steps, rfl⟩ : ∃ more, steps = more + 1 := ⟨steps - 1, by omega⟩
    have hquoted : quote name.toList ++ colon [] ++ text ++ remainder [] depth '\x7d' parts =
        '"' :: (name.toList.flatMap escaped ++ '"' :: (':' ::
          (text ++ remainder [] depth '\x7d' parts))) := by
      simp [quote, colon]
    rw [hquoted] at h
    obtain ⟨opened, rfl, hopened⟩ := torn_cons h (ne_of_isLineEnd hc rfl)
    rw [List.length_cons] at hsteps
    rcases torn_escapes hc hopened with ⟨some, rfl⟩ | ⟨closed, rfl, hclosed⟩
    · exact isRefused_readMembers_name (isRefused_scanString_escapes _ _ some)
    obtain ⟨behind, rfl, hbehind⟩ := torn_cons hclosed (ne_of_isLineEnd hc rfl)
    simp only [List.length_append, List.length_cons] at hsteps
    have hname := @scanString_escapes Dialect.strict.halves
      ((name.toList.flatMap escaped ++ '"' :: ':' :: behind).length + 1) name.toList (':' :: behind)
    have hskip : skipSpace behind = behind := by
      obtain ⟨d, tail, rfl, hspace, -⟩ := head_text hvalue htext
      exact skipSpace_torn hspace hbehind
    rcases torn_append hbehind with ⟨rest, rfl⟩ | ⟨between, rfl, hrest⟩
    · refine isRefused_readMembers_value hname ?_
      rw [hskip]
      exact htornValue htext hc (by omega)
    · -- the member is whole, and what is torn stands behind a comma
      obtain ⟨next, later, piece, rfl, rfl, hpiece⟩ := torn_remainder hc rfl hrest
      rw [List.length_append, List.length_cons] at hsteps
      have hwhole := hvalue (',' :: piece) htext (endsNumeral_cons (by decide))
        (show text.length ≤ steps by omega)
      rw [← hskip] at hwhole
      refine isRefused_readMembers_later hname hwhole ?_
      cases members with
      | nil => exact nomatch hothers
      | cons member' members' =>
        obtain ⟨name', value'⟩ := member'
        obtain ⟨text', others', htexts', -, -⟩ := printMembers_cons_eq_ok hothers
        obtain ⟨rfl, rfl⟩ := List.cons.inj htexts'
        have hspace : isSpace '"' = false := rfl
        rw [skipSpace_torn hspace hpiece]
        exact ih hmembers htornMembers hothers hpiece (by omega)

end Parts

/-- What is one line cannot be torn. -/
theorem isTornRefused_of_isOneLine {v : Value}
    (h : ∀ depth cs, printValue [] depth v = .ok cs → IsOneLine cs) : IsTornRefused v := by
  intro depth before c after steps hprint hc _
  exact absurd rfl (ne_torn_of_isOneLine hc (h depth _ hprint))

theorem isTornRefused_str (s : String) : IsTornRefused (.str s) := by
  intro depth before c after steps hprint hc hsteps
  have hquoted : '"' :: (s.toList.flatMap escaped ++ '"' :: []) = before ++ c :: after :=
    Except.ok.inj hprint
  obtain ⟨piece, rfl, hpiece⟩ := torn_cons hquoted (ne_of_isLineEnd hc rfl)
  rw [List.length_cons] at hsteps
  obtain ⟨steps, rfl⟩ : ∃ more, steps = more + 1 := ⟨steps - 1, by omega⟩
  rcases torn_escapes hc hpiece with ⟨some, rfl⟩ | ⟨behind, -, hbehind⟩
  · rw [readValue]
    exact (isRefused_scanString_escapes _ _ some).bind _
  · simp at hbehind

theorem isTornRefused_list {items : List Value} (hread : ∀ item ∈ items, ReadsBack [] item)
    (htorn : ∀ item ∈ items, IsTornRefused item) : IsTornRefused (.list items) := by
  intro depth before c after steps hprint hc hsteps
  rw [printValue] at hprint
  obtain ⟨parts, hparts, hprint⟩ := except_bind_eq_ok hprint
  have henclosed := Except.ok.inj hprint
  cases items with
  | nil =>
    obtain rfl := Except.ok.inj hparts
    have hline : IsOneLine ['[', ']'] := by decide
    exact absurd henclosed (ne_torn_of_isOneLine hc hline)
  | cons item items =>
    obtain ⟨text, others, rfl, htext, -⟩ := printItems_cons_eq_ok hparts
    rw [enclose_cons] at henclosed
    obtain ⟨piece, rfl, hpiece⟩ := torn_cons henclosed (ne_of_isLineEnd hc rfl)
    rw [List.length_cons] at hsteps
    obtain ⟨steps, rfl⟩ : ∃ more, steps = more + 1 := ⟨steps - 1, by omega⟩
    have hitems := isRefused_readItems hc hread htorn hparts hpiece
      (show 2 * piece.length + 1 ≤ steps by omega)
    obtain ⟨d, tail, rfl, hspace, hstart⟩ := head_text (hread item List.mem_cons_self) htext
    refine isRefused_readValue_items (skipSpace_torn hspace hpiece) (fun hbracket => ?_) hitems
    rw [← eq_of_mem_head?_torn hpiece hbracket] at hstart
    exact hstart List.mem_cons_self

theorem isTornRefused_object {members : List (String × Value)}
    (hread : ∀ member ∈ members, ReadsBack [] member.2)
    (htorn : ∀ member ∈ members, IsTornRefused member.2) : IsTornRefused (.object members) := by
  intro depth before c after steps hprint hc hsteps
  rw [printValue] at hprint
  obtain ⟨parts, hparts, hprint⟩ := except_bind_eq_ok hprint
  have henclosed := Except.ok.inj hprint
  cases members with
  | nil =>
    obtain rfl := Except.ok.inj hparts
    have hline : IsOneLine ['\x7b', '\x7d'] := by decide
    exact absurd henclosed (ne_torn_of_isOneLine hc hline)
  | cons member members =>
    obtain ⟨name, value⟩ := member
    obtain ⟨text, others, rfl, -, -⟩ := printMembers_cons_eq_ok hparts
    rw [enclose_cons] at henclosed
    obtain ⟨piece, rfl, hpiece⟩ := torn_cons henclosed (ne_of_isLineEnd hc rfl)
    rw [List.length_cons] at hsteps
    obtain ⟨steps, rfl⟩ : ∃ more, steps = more + 1 := ⟨steps - 1, by omega⟩
    have hmembers := isRefused_readMembers hc hread htorn hparts hpiece
      (show 2 * piece.length + 1 ≤ steps by omega)
    have hspace : isSpace '"' = false := rfl
    refine isRefused_readValue_members (skipSpace_torn hspace hpiece) (fun hbrace => ?_) hmembers
    exact absurd (eq_of_mem_head?_torn hpiece hbrace) (by decide)

theorem isTornRefused_of_isJson {v : Value} (hv : v.everywhere Value.isJson = true) :
    IsTornRefused v := by
  have hread : ∀ {part : Value}, part.everywhere Value.isJson = true → ReadsBack [] part :=
    fun hpart => readsBack_of_hasDistinctNames (List.forall_mem_nil _)
      (Value.everywhere_mono Value.hasDistinctMembers_of_isJson hpart)
  induction v using Value.partsInduction with
  | str s => exact isTornRefused_str s
  | bytes octets => exact nomatch hv
  | list items ih =>
    obtain ⟨-, hitems⟩ := Value.everywhere_list_iff.mp hv
    exact isTornRefused_list (fun item hitem => hread (hitems item hitem))
      fun item hitem => ih item hitem (hitems item hitem)
  | tuple items ih => exact nomatch (Value.everywhere_tuple_iff.mp hv).1
  | object members ih =>
    obtain ⟨-, hmembers⟩ := Value.everywhere_object_iff.mp hv
    exact isTornRefused_object (fun member hmember => hread (hmembers member hmember))
      fun member hmember => ih member hmember (hmembers member hmember)
  | _ =>
    -- the text of a word or number is one line
    exact isTornRefused_of_isOneLine fun depth cs h => (isOneLine_printValue_iff hv h).mpr rfl

/-! ## Whole texts -/

theorem isBlank_of_startsNumeral {c : Char} (hc : c = '-' ∨ c.isDigit = true) :
    isBlank c = false := by
  rcases hc with rfl | hdigit
  · rfl
  · exact isBlank_of_isDigit hdigit

/-- The text of a value starts with a character that is no white space. -/
theorem head_printValue {indent : List Char} {depth : Nat} {v : Value} {cs : List Char}
    (h : printValue indent depth v = .ok cs) : ∃ c tail, cs = c :: tail ∧ isBlank c = false := by
  have hnumeral : ∀ {numeral : Numeral}, numeral.WellFormed →
      ∃ c tail, numeral.spelled = c :: tail ∧ isBlank c = false := by
    intro numeral hn
    obtain ⟨c, tail, hspelled, hc⟩ := head_spelled hn
    exact ⟨c, tail, hspelled, isBlank_of_startsNumeral hc⟩
  have henclosed : ∀ {opening closing : Char} {parts : List (List Char)},
      isBlank opening = false → ∃ c tail,
        enclose indent depth opening closing parts = c :: tail ∧ isBlank c = false := by
    intro opening closing parts hopening
    cases parts with
    | nil => exact ⟨opening, _, rfl, hopening⟩
    | cons first rest => exact ⟨opening, _, rfl, hopening⟩
  cases v with
  | null =>
    obtain rfl := Except.ok.inj h
    exact ⟨'n', _, rfl, rfl⟩
  | bool b =>
    cases b
    · obtain rfl := Except.ok.inj h
      exact ⟨'f', _, rfl, rfl⟩
    · obtain rfl := Except.ok.inj h
      exact ⟨'t', _, rfl, rfl⟩
  | int n =>
    obtain ⟨numeral, hn, rfl, -⟩ := exists_spelled_printInt h
    exact hnumeral hn
  | float x =>
    cases x with
    | finite negative magnitude =>
      obtain rfl := Except.ok.inj h
      obtain ⟨numeral, hn, hspelled, -⟩ := exists_spelled_finite negative magnitude
      rw [← hspelled]
      exact hnumeral hn
    | infinite negative => exact nomatch h
    | nan => exact nomatch h
  | str s =>
    obtain rfl := Except.ok.inj h
    exact ⟨'"', _, rfl, rfl⟩
  | bytes octets =>
    rw [printValue] at h
    split at h
    · obtain rfl := Except.ok.inj h
      exact ⟨'"', _, rfl, rfl⟩
    · contradiction
  | list items =>
    obtain ⟨parts, -, h⟩ := except_bind_eq_ok h
    obtain rfl := Except.ok.inj h
    exact henclosed rfl
  | tuple items =>
    obtain ⟨parts, -, h⟩ := except_bind_eq_ok h
    obtain rfl := Except.ok.inj h
    exact henclosed rfl
  | object members =>
    obtain ⟨parts, -, h⟩ := except_bind_eq_ok h
    obtain rfl := Except.ok.inj h
    exact henclosed rfl

section Whole

variable {v : Value} (hv : v.everywhere Value.isJson = true) {before after : List Char} {c : Char}
  (h : printValue [] 0 v = .ok (before ++ c :: after)) (hc : isLineEnd c = true)
include hv h hc

/-- The first piece of a text that was torn is not empty, and starts like the text. -/
theorem head_torn :
    ∃ d piece, before = d :: piece ∧ isBlank d = false ∧ isSpace d = false ∧ d ∉ nonStarters := by
  have hread : ReadsBack [] v := readsBack_of_hasDistinctNames (List.forall_mem_nil _)
    (Value.everywhere_mono Value.hasDistinctMembers_of_isJson hv)
  obtain ⟨d, tail, htext, hspace, hstart⟩ := head_text hread h
  obtain ⟨e, tail', htext', hblank⟩ := head_printValue h
  rw [htext] at htext'
  obtain ⟨rfl, -⟩ := List.cons.inj htext'
  have hne : c ≠ d := by
    rintro rfl
    rw [isBlank_of_isLineEnd hc] at hblank
    exact nomatch hblank
  obtain ⟨piece, rfl, -⟩ := torn_cons htext.symm hne
  exact ⟨d, piece, rfl, hblank, hspace, hstart⟩

theorem isRefused_scanText_torn : IsRefused (scanText .strict before) := by
  have hread := isTornRefused_of_isJson hv h hc
    (show 2 * before.length ≤ 2 * before.length + 2 by omega)
  obtain ⟨d, piece, rfl, -, hspace, hstart⟩ := head_torn hv h hc
  unfold scanText
  dsimp only
  rw [skipSpace_start (ne_of_mem_of_not_mem (by decide) hstart).symm
    (ne_of_mem_of_not_mem (by decide) hstart).symm hspace piece]
  exact hread.bind _

/-- **The first piece of a text that was torn at a line boundary is malformed.** -/
theorem parse_torn :
    ∃ fault, Session.parse (String.ofList before) = .error (.malformedSample fault) := by
  obtain ⟨cause, left, hscan⟩ := isRefused_scanText_torn hv h hc
  refine ⟨(Stop.malformed cause left).toFault before, ?_⟩
  rw [Session.parse, Session.parseIn, read, String.toList_ofList, hscan]
  rfl

end Whole

end Json

end SampleSchema
