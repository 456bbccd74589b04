import SampleSchema.Proofs.Failure
import SampleSchema.Proofs.Numerals
import SampleSchema.Proofs.PlainValue
import SampleSchema.Proofs.Quotation
/-!
# Reading JSON texts back

The text of a value, compact or laid out with any white space, is read as the plain form of the
value: `readValue_printValue` inside of a longer text, and `read_print` for a whole one. Objects
must have distinct names, because of two members with one name only the last is read.

Reading is by steps, and every value is read with as many steps as it has characters: an item or a
member takes one step and is followed by at least one character, the bracket or brace in the end.
-/

namespace SampleSchema

namespace Json

/-! ## Layout -/

theorem skipSpace_of_head? {cs : List Char} (h : ∀ c ∈ cs.head?, isSpace c = false) :
    skipSpace cs = cs := by
  cases cs with
  | nil => rfl
  | cons c rest =>
    have hc : isSpace c = false := h c rfl
    simp [skipSpace, hc]

/-- White space in front is skipped, up to the first character that is none. -/
theorem skipSpace_append {space cs : List Char} (hspace : ∀ c ∈ space, isSpace c = true)
    (h : ∀ c ∈ cs.head?, isSpace c = false) : skipSpace (space ++ cs) = cs := by
  rw [skipSpace, List.dropWhile_append_of_pos hspace]
  exact skipSpace_of_head? h

section Layout

variable {indent : List Char} (hindent : ∀ c ∈ indent, isSpace c = true)
include hindent

theorem isSpace_of_mem_lineStart (depth : Nat) :
    ∀ c ∈ lineStart indent depth, isSpace c = true := by
  intro c hc
  unfold lineStart at hc
  split at hc
  · exact absurd hc List.not_mem_nil
  · rcases List.mem_cons.mp hc with rfl | hc
    · rfl
    · obtain ⟨line, hline, hc⟩ := List.mem_flatten.mp hc
      rw [List.eq_of_mem_replicate hline] at hc
      exact hindent c hc

theorem skipSpace_lineStart (depth : Nat) {cs : List Char}
    (h : ∀ c ∈ cs.head?, isSpace c = false) : skipSpace (lineStart indent depth ++ cs) = cs :=
  skipSpace_append (isSpace_of_mem_lineStart hindent depth) h

end Layout

/-- What stands behind the first part of an array or object: the other parts, and the closing
bracket or brace. -/
def remainder (indent : List Char) (depth : Nat) (closing : Char) (parts : List (List Char)) :
    List Char :=
  parts.flatMap (fun part => ',' :: (lineStart indent (depth + 1) ++ part)) ++
    (lineStart indent depth ++ [closing])

theorem enclose_cons (indent : List Char) (depth : Nat) (opening closing : Char)
    (first : List Char) (parts : List (List Char)) :
    enclose indent depth opening closing (first :: parts) =
      opening :: (lineStart indent (depth + 1) ++
        (first ++ remainder indent depth closing parts)) := by
  simp [enclose, remainder]

theorem remainder_cons (indent : List Char) (depth : Nat) (closing : Char) (part : List Char)
    (parts : List (List Char)) :
    remainder indent depth closing (part :: parts) =
      ',' :: (lineStart indent (depth + 1) ++
        (part ++ remainder indent depth closing parts)) := by
  simp [remainder]

section

variable {indent : List Char} (hindent : ∀ c ∈ indent, isSpace c = true) (depth : Nat)

theorem skipSpace_remainder_cons (closing : Char) (part : List Char) (parts : List (List Char))
    (rest : List Char) :
    skipSpace (remainder indent depth closing (part :: parts) ++ rest) =
      ',' :: (lineStart indent (depth + 1) ++
        (part ++ (remainder indent depth closing parts ++ rest))) := by
  rw [remainder_cons, List.cons_append, List.append_assoc, List.append_assoc]
  exact skipSpace_of_head? (by rintro c ⟨⟩; rfl)

include hindent in
theorem skipSpace_remainder_nil {closing : Char} (hclosing : isSpace closing = false)
    (rest : List Char) :
    skipSpace (remainder indent depth closing [] ++ rest) = closing :: rest := by
  rw [remainder, List.flatMap_nil, List.nil_append, List.append_assoc]
  exact skipSpace_lineStart hindent depth (by rintro c ⟨⟩; exact hclosing)

end

/-- A colon is found, and only white space is behind it. -/
theorem exists_space_colon (indent : List Char) :
    ∃ space, (∀ c ∈ space, isSpace c = true) ∧
      ∀ rest, skipSpace (colon indent ++ rest) = ':' :: (space ++ rest) := by
  unfold colon
  split
  · exact ⟨[], nofun, fun rest => skipSpace_of_head? (by rintro c ⟨⟩; rfl)⟩
  · exact ⟨[' '], List.forall_mem_singleton.mpr rfl, fun rest => skipSpace_of_head? (by rintro c ⟨⟩; rfl)⟩

theorem one_le_length_remainder (indent : List Char) (depth : Nat) (closing : Char)
    (parts : List (List Char)) : 1 ≤ (remainder indent depth closing parts).length := by
  rw [remainder, List.length_append, List.length_append, List.length_singleton]
  omega

/-- No numeral goes on with a comma, a bracket, a brace or the white space before them. -/
theorem endsNumeral_remainder {indent : List Char} (depth : Nat) {closing : Char}
    (parts : List (List Char)) (rest : List Char)
    (hclosing : closing = ']' ∨ closing = '\x7d') :
    EndsNumeral (remainder indent depth closing parts ++ rest) := by
  cases parts with
  | cons part parts =>
    rw [remainder_cons]
    exact endsNumeral_cons (by decide)
  | nil =>
    show EndsNumeral (lineStart indent depth ++ [closing] ++ rest)
    unfold lineStart
    split
    · rcases hclosing with rfl | rfl
      · exact endsNumeral_cons (by decide)
      · exact endsNumeral_cons (by decide)
    · exact endsNumeral_cons (by decide)

/-! ## Numbers and words -/

/-- A numeral starts with its sign or with a digit. -/
theorem head_spelled {n : Numeral} (hn : n.WellFormed) :
    ∃ c cs, n.spelled = c :: cs ∧ (c = '-' ∨ c.isDigit = true) := by
  rw [Numeral.spelled]
  cases n.negative with
  | true => exact ⟨'-', _, rfl, .inl rfl⟩
  | false =>
    cases hwhole : n.whole with
    | nil => exact absurd hwhole hn.whole_ne_nil
    | cons first later =>
      exact ⟨first, _, rfl, .inr (hn.whole first (hwhole ▸ List.mem_cons_self))⟩

/-- Neither a sign nor a digit starts anything but a numeral. -/
theorem ne_of_startsNumeral {c : Char} (hc : c = '-' ∨ c.isDigit = true) :
    c ≠ '"' ∧ c ≠ '[' ∧ c ≠ '\x7b' ∧ c ≠ ']' ∧ c ≠ 'n' ∧ c ≠ 't' ∧ c ≠ 'f' ∧
      isSpace c = false := by
  rcases hc with rfl | hdigit
  · decide
  · refine ⟨?_, ?_, ?_, ?_, ?_, ?_, ?_, ?_⟩
    iterate 7
      rintro rfl
      exact absurd hdigit (by decide)
    cases hspace : isSpace c with
    | false => rfl
    | true =>
      simp only [isSpace, Bool.or_eq_true, beq_iff_eq] at hspace
      rcases hspace with ((rfl | rfl) | rfl) | rfl
      all_goals exact absurd hdigit (by decide)

theorem scanWord_of_startsNumeral {c : Char} (hc : c = '-' ∨ c.isDigit = true) (cs : List Char) :
    scanWord .strict (c :: cs) = none := by
  obtain ⟨-, -, -, -, hn, ht, hf, -⟩ := ne_of_startsNumeral hc
  simp [scanWord, Dialect.strict, words, afterWord?, hn.symm, ht.symm, hf.symm]

/-- So whatever starts in this way is read as an atom. -/
theorem readValue_of_startsNumeral {c : Char} (hc : c = '-' ∨ c.isDigit = true) (cs : List Char)
    (steps : Nat) :
    readValue .strict (steps + 1) (c :: cs) = scanAtom .strict (c :: cs) := by
  obtain ⟨hquote, hbracket, hbrace, -⟩ := ne_of_startsNumeral hc
  exact readValue.eq_5 .strict _ steps (fun _ h => hquote (List.cons.inj h).1)
    (fun _ h => hbracket (List.cons.inj h).1) (fun _ h => hbrace (List.cons.inj h).1)

theorem scanAtom_of_scan {c : Char} (hc : c = '-' ∨ c.isDigit = true) {cs rest : List Char}
    {n : Numeral} (hscan : Numeral.scan (c :: cs) = some (n, rest)) :
    scanAtom .strict (c :: cs) =
      match n.value? with
      | some v => .ok (v, rest)
      | none => .error .tooManyDigits := by
  rw [scanAtom, scanWord_of_startsNumeral hc]
  cases hvalue : n.value? with
  | none => simp only [hscan, hvalue]
  | some v => simp only [hscan, hvalue]

theorem readValue_spelled {n : Numeral} (hn : n.WellFormed) {v : Value} (hv : n.value? = some v)
    {rest : List Char} (hrest : EndsNumeral rest) (steps : Nat) :
    readValue .strict (steps + 1) (n.spelled ++ rest) = .ok (v, rest) := by
  have hscan := scan_spelled hn hrest
  obtain ⟨c, cs, hspelled, hc⟩ := head_spelled hn
  rw [hspelled, List.cons_append] at hscan ⊢
  rw [readValue_of_startsNumeral hc, scanAtom_of_scan hc hscan, hv]

/-! ## Steps of reading -/

section Steps

variable {dialect : Dialect} {steps : Nat} {cs rest tail last : List Char} {v : Value}

theorem readItems_of_bracket (hread : readValue dialect steps cs = .ok (v, rest))
    (hbracket : skipSpace rest = ']' :: tail) :
    readItems dialect (steps + 1) cs = .ok ([v], tail) := by
  simp only [readItems, hread, hbracket, except_ok_bind]
  rfl

theorem readItems_of_comma (hread : readValue dialect steps cs = .ok (v, rest))
    (hcomma : skipSpace rest = ',' :: tail) {items : List Value}
    (hitems : readItems dialect steps (skipSpace tail) = .ok (items, last)) :
    readItems dialect (steps + 1) cs = .ok (v :: items, last) := by
  simp only [readItems, hread, hcomma, hitems, except_ok_bind]
  rfl

theorem readValue_of_items {c : Char} (hskip : skipSpace cs = c :: tail) (hc : c ≠ ']')
    {items : List Value} (hitems : readItems dialect steps (c :: tail) = .ok (items, last)) :
    readValue dialect (steps + 1) ('[' :: cs) = .ok (.list items, last) := by
  rw [readValue, hskip]
  split
  · contradiction
  · rename_i heq
    exact absurd (List.cons.inj heq).1 hc
  · rw [hitems]
    rfl

theorem readValue_of_members (hskip : skipSpace cs = '"' :: tail)
    {members : List (String × Value)}
    (hmembers : readMembers dialect steps ('"' :: tail) = .ok (members, last)) :
    readValue dialect (steps + 1) ('\x7b' :: cs) = .ok (.ofMembers members, last) := by
  rw [readValue, hskip]
  split
  · contradiction
  · rename_i heq
    exact absurd (List.cons.inj heq).1 (by decide)
  · rw [hmembers]
    rfl

variable {name : String} {colon behind : List Char}
  (hname : scanString dialect.halves (cs.length + 1) cs = .ok (name.toList, colon))
  (hcolon : skipSpace colon = ':' :: behind)
  (hread : readValue dialect steps (skipSpace behind) = .ok (v, rest))
include hname hcolon hread

theorem readMembers_of_brace (hbrace : skipSpace rest = '\x7d' :: tail) :
    readMembers dialect (steps + 1) ('"' :: cs) = .ok ([(name, v)], tail) := by
  simp only [readMembers, List.length_cons, hname, hcolon, hread, hbrace, except_ok_bind,
    String.ofList_toList]
  rfl

theorem readMembers_of_comma (hcomma : skipSpace rest = ',' :: tail)
    {members : List (String × Value)}
    (hmembers : readMembers dialect steps (skipSpace tail) = .ok (members, last)) :
    readMembers dialect (steps + 1) ('"' :: cs) = .ok ((name, v) :: members, last) := by
  simp only [readMembers, List.length_cons, hname, hcolon, hread, hcomma, hmembers,
    except_ok_bind, String.ofList_toList]
  rfl

end Steps

/-! ## Items and members -/

/-- A closing bracket and the marks of byte order. Together with white space, they are what a
text may not start with. -/
def nonStarters : List Char :=
  [']', '\ufeff', '\u00ef']

theorem readValue_ne_ok {c : Char} (hc : isSpace c = true ∨ c ∈ nonStarters) (steps : Nat)
    (cs : List Char) (result : Value × List Char) :
    readValue .strict steps (c :: cs) ≠ .ok result := by
  simp only [isSpace, nonStarters, Bool.or_eq_true, beq_iff_eq, List.mem_cons, List.not_mem_nil,
    or_false] at hc
  cases steps with
  | zero => exact nofun
  | succ steps =>
    rcases hc with (((rfl | rfl) | rfl) | rfl) | rfl | rfl | rfl
    iterate 7 exact nofun

/-- The text of a value is read as the plain form of the value, wherever it stands. -/
def ReadsBack (indent : List Char) (v : Value) : Prop :=
  ∀ ⦃depth : Nat⦄ ⦃cs : List Char⦄ (rest : List Char) ⦃steps : Nat⦄,
    printValue indent depth v = .ok cs → EndsNumeral rest → cs.length ≤ steps →
      readValue .strict steps (cs ++ rest) = .ok (v.plain, rest)

section Parts

variable {indent : List Char} {depth : Nat}

theorem head_text {v : Value} (hv : ReadsBack indent v) {cs : List Char}
    (h : printValue indent depth v = .ok cs) :
    ∃ c tail, cs = c :: tail ∧ isSpace c = false ∧ c ∉ nonStarters := by
  have hread := hv [] h endsNumeral_nil (Nat.le_refl _)
  rw [List.append_nil] at hread
  cases cs with
  | nil => exact nomatch hread
  | cons c tail =>
    refine ⟨c, tail, rfl, ?_, ?_⟩
    · cases hspace : isSpace c with
      | false => rfl
      | true => exact absurd hread (readValue_ne_ok (.inl hspace) _ _ _)
    · exact fun hmem => readValue_ne_ok (.inr hmem) _ _ _ hread

variable (hindent : ∀ c ∈ indent, isSpace c = true)
include hindent

omit hindent in
theorem skipSpace_text {v : Value} (hv : ReadsBack indent v) {cs : List Char}
    (h : printValue indent depth v = .ok cs) {space : List Char}
    (hspace : ∀ c ∈ space, isSpace c = true) (rest : List Char) :
    skipSpace (space ++ (cs ++ rest)) = cs ++ rest := by
  obtain ⟨c, tail, rfl, hstart, -⟩ := head_text hv h
  exact skipSpace_append hspace (by rintro d ⟨⟩; exact hstart)

omit hindent in
theorem printItems_cons_eq_ok {item : Value} {items : List Value} {texts : List (List Char)}
    (h : printItems indent depth (item :: items) = .ok texts) :
    ∃ text others, texts = text :: others ∧ printValue indent depth item = .ok text ∧
      printItems indent depth items = .ok others := by
  rw [printItems] at h
  obtain ⟨text, htext, h⟩ := except_bind_eq_ok h
  obtain ⟨others, hothers, h⟩ := except_bind_eq_ok h
  exact ⟨text, others, (Except.ok.inj h).symm, htext, hothers⟩

omit hindent in
theorem printMembers_cons_eq_ok {name : String} {value : Value}
    {members : List (String × Value)} {texts : List (List Char)}
    (h : printMembers indent depth ((name, value) :: members) = .ok texts) :
    ∃ text others, texts = (quote name.toList ++ colon indent ++ text) :: others ∧
      printValue indent depth value = .ok text ∧
      printMembers indent depth members = .ok others := by
  rw [printMembers] at h
  obtain ⟨text, htext, h⟩ := except_bind_eq_ok h
  obtain ⟨others, hothers, h⟩ := except_bind_eq_ok h
  exact ⟨text, others, (Except.ok.inj h).symm, htext, hothers⟩

/-- The items of an array are read up to its bracket. -/
theorem readItems_remainder {items : List Value} (heach : ∀ item ∈ items, ReadsBack indent item)
    {first : List Char} {parts : List (List Char)}
    (hprint : printItems indent (depth + 1) items = .ok (first :: parts)) (rest : List Char)
    {steps : Nat} (hsteps : (first ++ remainder indent depth ']' parts).length ≤ steps) :
    readItems .strict steps (first ++ (remainder indent depth ']' parts ++ rest)) =
      .ok (items.map Value.plain, rest) := by
  induction items generalizing first parts steps with
  | nil => exact nomatch hprint
  | cons item items ih =>
    obtain ⟨hitem, hitems⟩ := List.forall_mem_cons.mp heach
    obtain ⟨text, others, htexts, htext, hothers⟩ := printItems_cons_eq_ok hprint
    obtain ⟨rfl, rfl⟩ := List.cons.inj htexts
    have hlength := one_le_length_remainder indent depth ']' parts
    rw [List.length_append] at hsteps
    obtain ⟨steps, rfl⟩ : ∃ more, steps = more + 1 := ⟨steps - 1, by omega⟩
    have hread := hitem (remainder indent depth ']' parts ++ rest) htext
      (endsNumeral_remainder depth parts rest (.inl rfl)) (show first.length ≤ steps by omega)
    cases items with
    | nil =>
      obtain rfl := Except.ok.inj hothers
      exact readItems_of_bracket hread (skipSpace_remainder_nil hindent depth (by rfl) rest)
    | cons next later =>
      -- behind the comma stands the text of the next item
      obtain ⟨nextText, texts, rfl, hnext, -⟩ := printItems_cons_eq_ok hothers
      rw [remainder_cons, List.length_cons, List.length_append] at hsteps
      refine readItems_of_comma hread (skipSpace_remainder_cons depth ']' nextText texts rest) ?_
      rw [skipSpace_text (hitems next List.mem_cons_self) hnext
        (isSpace_of_mem_lineStart hindent (depth + 1))]
      exact ih hitems hothers (by omega)

/-- The members of an object are read up to its brace. -/
theorem readMembers_remainder {members : List (String × Value)}
    (heach : ∀ member ∈ members, ReadsBack indent member.2)
    {first : List Char} {parts : List (List Char)}
    (hprint : printMembers indent (depth + 1) members = .ok (first :: parts)) (rest : List Char)
    {steps : Nat} (hsteps : (first ++ remainder indent depth '\x7d' parts).length ≤ steps) :
    readMembers .strict steps (first ++ (remainder indent depth '\x7d' parts ++ rest)) =
      .ok (members.map fun member => (member.1, member.2.plain), rest) := by
  induction members generalizing first parts steps with
  | nil => exact nomatch hprint
  | cons member members ih =>
    obtain ⟨name, value⟩ := member
    obtain ⟨hvalue, hmembers⟩ := List.forall_mem_cons.mp heach
    obtain ⟨text, others, htexts, htext, hothers⟩ := printMembers_cons_eq_ok hprint
    obtain ⟨rfl, rfl⟩ := List.cons.inj htexts
    have hlength := one_le_length_remainder indent depth '\x7d' parts
    simp only [List.length_append] at hsteps
    obtain ⟨steps, rfl⟩ : ∃ more, steps = more + 1 := ⟨steps - 1, by omega⟩
    have hread := hvalue (remainder indent depth '\x7d' parts ++ rest) htext
      (endsNumeral_remainder depth parts rest (.inr rfl)) (show text.length ≤ steps by omega)
    -- the quoted name, the colon, and then the value
    obtain ⟨space, hspace, hcolon⟩ := exists_space_colon indent
    have hquoted : quote name.toList ++ colon indent ++ text ++
        (remainder indent depth '\x7d' parts ++ rest) =
      '"' :: (name.toList.flatMap escaped ++ '"' :: (colon indent ++
        (text ++ (remainder indent depth '\x7d' parts ++ rest)))) := by
      simp [quote]
    rw [← skipSpace_text hvalue htext hspace] at hread
    rw [hquoted]
    cases members with
    | nil =>
      obtain rfl := Except.ok.inj hothers
      exact readMembers_of_brace (scanString_escapes _ _ _) (hcolon _) hread
        (skipSpace_remainder_nil hindent depth (by rfl) rest)
    | cons next later =>
      obtain ⟨nextName, nextValue⟩ := next
      obtain ⟨nextText, texts, rfl, hnext, -⟩ := printMembers_cons_eq_ok hothers
      rw [remainder_cons, List.length_cons, List.length_append] at hsteps
      refine readMembers_of_comma (scanString_escapes _ _ _) (hcolon _) hread
        (skipSpace_remainder_cons depth '\x7d' _ texts rest) ?_
      -- behind the comma stands the quote of the next name
      rw [skipSpace_lineStart hindent (depth + 1) (by rintro c ⟨⟩; rfl)]
      exact ih hmembers hothers (by omega)

end Parts

/-! ## Values -/

theorem readValue_quote (cs rest : List Char) (steps : Nat) :
    readValue .strict (steps + 1) (quote cs ++ rest) = .ok (.str (String.ofList cs), rest) := by
  have hquoted : quote cs ++ rest = '"' :: (cs.flatMap escaped ++ '"' :: rest) := by simp [quote]
  rw [hquoted, readValue, scanString_escapes]
  rfl

theorem readValue_items {indent : List Char} (hindent : ∀ c ∈ indent, isSpace c = true)
    {items : List Value} (heach : ∀ item ∈ items, ReadsBack indent item) {depth : Nat}
    {parts : List (List Char)} (hprint : printItems indent (depth + 1) items = .ok parts)
    (rest : List Char) {steps : Nat} (hsteps : (enclose indent depth '[' ']' parts).length ≤ steps) :
    readValue .strict steps (enclose indent depth '[' ']' parts ++ rest) =
      .ok (.list (items.map Value.plain), rest) := by
  cases items with
  | nil =>
    obtain rfl := Except.ok.inj hprint
    obtain ⟨steps, rfl⟩ : ∃ more, steps = more + 1 := ⟨steps - 1, by simp [enclose] at hsteps; omega⟩
    rfl
  | cons item items =>
    obtain ⟨text, others, rfl, htext, -⟩ := printItems_cons_eq_ok hprint
    rw [enclose_cons] at hsteps ⊢
    rw [List.length_cons, List.length_append] at hsteps
    obtain ⟨steps, rfl⟩ : ∃ more, steps = more + 1 := ⟨steps - 1, by omega⟩
    have hitem := heach item List.mem_cons_self
    have hread := readItems_remainder hindent heach hprint rest
      (show (text ++ remainder indent depth ']' others).length ≤ steps by omega)
    have hskip := skipSpace_text hitem htext (isSpace_of_mem_lineStart hindent (depth + 1))
      (remainder indent depth ']' others ++ rest)
    obtain ⟨c, tail, rfl, -, hstart⟩ := head_text hitem htext
    rw [List.cons_append, List.append_assoc, List.append_assoc]
    refine readValue_of_items hskip ?_ hread
    exact fun hbracket => hstart (hbracket ▸ List.mem_cons_self)

theorem readValue_members {indent : List Char} (hindent : ∀ c ∈ indent, isSpace c = true)
    {members : List (String × Value)} (heach : ∀ member ∈ members, ReadsBack indent member.2)
    {depth : Nat} {parts : List (List Char)}
    (hprint : printMembers indent (depth + 1) members = .ok parts) (rest : List Char)
    {steps : Nat} (hsteps : (enclose indent depth '\x7b' '\x7d' parts).length ≤ steps) :
    readValue .strict steps (enclose indent depth '\x7b' '\x7d' parts ++ rest) =
      .ok (.ofMembers (members.map fun member => (member.1, member.2.plain)), rest) := by
  cases members with
  | nil =>
    obtain rfl := Except.ok.inj hprint
    obtain ⟨steps, rfl⟩ : ∃ more, steps = more + 1 := ⟨steps - 1, by simp [enclose] at hsteps; omega⟩
    rfl
  | cons member members =>
    obtain ⟨name, value⟩ := member
    obtain ⟨text, others, rfl, htext, -⟩ := printMembers_cons_eq_ok hprint
    rw [enclose_cons] at hsteps ⊢
    rw [List.length_cons, List.length_append] at hsteps
    obtain ⟨steps, rfl⟩ : ∃ more, steps = more + 1 := ⟨steps - 1, by omega⟩
    have hread := readMembers_remainder hindent heach hprint rest
      (show (quote name.toList ++ colon indent ++ text ++
        remainder indent depth '\x7d' others).length ≤ steps by omega)
    rw [List.cons_append, List.append_assoc, List.append_assoc]
    exact readValue_of_members
      (skipSpace_lineStart hindent (depth + 1) (by rintro c ⟨⟩; rfl)) hread

/-- A value without parts is read at once, in one step. -/
theorem readsBack_of_step {indent : List Char} {v : Value}
    (h : ∀ depth cs, printValue indent depth v = .ok cs → cs ≠ [] ∧ ∀ rest steps,
      EndsNumeral rest → readValue .strict (steps + 1) (cs ++ rest) = .ok (v.plain, rest)) :
    ReadsBack indent v := by
  intro depth cs rest steps hprint hrest hsteps
  obtain ⟨hne, hread⟩ := h depth cs hprint
  have hpos := List.length_pos_of_ne_nil hne
  obtain ⟨steps, rfl⟩ : ∃ more, steps = more + 1 := ⟨steps - 1, by omega⟩
  exact hread rest steps hrest

theorem readsBack_of_spelled {indent : List Char} {v : Value}
    (h : ∀ depth cs, printValue indent depth v = .ok cs →
      ∃ n : Numeral, n.WellFormed ∧ n.spelled = cs ∧ n.value? = some v.plain) :
    ReadsBack indent v := by
  refine readsBack_of_step fun depth cs hprint => ?_
  obtain ⟨n, hn, rfl, hvalue⟩ := h depth cs hprint
  obtain ⟨c, tail, hspelled, -⟩ := head_spelled hn
  refine ⟨?_, fun rest steps hrest => readValue_spelled hn hvalue hrest steps⟩
  rw [hspelled]
  exact List.cons_ne_nil c tail

/-- An array is read back if its items are, whether it is a fixed sequence or not. -/
theorem readsBack_of_items {indent : List Char} (hindent : ∀ c ∈ indent, isSpace c = true)
    {v : Value} {items : List Value} (hplain : v.plain = .list (items.map Value.plain))
    (hv : ∀ depth, printValue indent depth v =
      (do return enclose indent depth '[' ']' (← printItems indent (depth + 1) items)))
    (heach : ∀ item ∈ items, ReadsBack indent item) : ReadsBack indent v := by
  intro depth cs rest steps hprint hrest hsteps
  rw [hv] at hprint
  obtain ⟨parts, hparts, hprint⟩ := except_bind_eq_ok hprint
  obtain rfl := Except.ok.inj hprint
  rw [hplain]
  exact readValue_items hindent heach hparts rest hsteps

/-- Every value is read back, if its objects have distinct names. -/
theorem readsBack_of_hasDistinctNames {indent : List Char}
    (hindent : ∀ c ∈ indent, isSpace c = true) {v : Value} (hd : v.hasDistinctNames = true) :
    ReadsBack indent v := by
  induction v using Value.partsInduction with
  | null =>
    refine readsBack_of_step ?_
    rintro depth _ ⟨⟩
    exact ⟨List.cons_ne_nil _ _, fun rest steps _ => rfl⟩
  | bool b =>
    refine readsBack_of_step fun depth cs hprint => ?_
    cases b with
    | false =>
      obtain rfl := Except.ok.inj hprint
      exact ⟨List.cons_ne_nil _ _, fun rest steps _ => rfl⟩
    | true =>
      obtain rfl := Except.ok.inj hprint
      exact ⟨List.cons_ne_nil _ _, fun rest steps _ => rfl⟩
  | int n =>
    refine readsBack_of_spelled fun depth cs hprint => ?_
    exact exists_spelled_printInt hprint
  | float x =>
    refine readsBack_of_spelled fun depth cs hprint => ?_
    cases x with
    | finite negative magnitude =>
      obtain rfl := Except.ok.inj hprint
      exact exists_spelled_finite negative magnitude
    | infinite negative => cases hprint
    | nan => cases hprint
  | str s =>
    refine readsBack_of_step ?_
    rintro depth _ ⟨⟩
    refine ⟨List.cons_ne_nil _ _, fun rest steps _ => ?_⟩
    rw [readValue_quote, String.ofList_toList]
    rfl
  | bytes octets =>
    refine readsBack_of_step fun depth cs hprint => ?_
    rcases Value.plain_bytes octets with ⟨text, hdecode, hplain⟩ | ⟨fault, hdecode, -⟩
    · rw [printValue, hdecode] at hprint
      obtain rfl := Except.ok.inj hprint
      refine ⟨List.cons_ne_nil _ _, fun rest steps _ => ?_⟩
      rw [readValue_quote, hplain]
    · rw [printValue, hdecode] at hprint
      cases hprint
  | list items ih =>
    refine readsBack_of_items hindent (Value.plain_list items) (fun depth => rfl) ?_
    intro item hitem
    exact ih item hitem (Value.everywhere_of_mem_elements hd hitem)
  | tuple items ih =>
    refine readsBack_of_items hindent (Value.plain_tuple items) (fun depth => rfl) ?_
    intro item hitem
    exact ih item hitem (Value.everywhere_of_mem_elements hd hitem)
  | object members ih =>
    obtain ⟨hnames, hmembers⟩ := Value.everywhere_object_iff.mp hd
    have heach : ∀ member ∈ members, ReadsBack indent member.2 := by
      intro member hmember
      exact ih member hmember (hmembers member hmember)
    intro depth cs rest steps hprint hrest hsteps
    rw [printValue] at hprint
    obtain ⟨parts, hparts, hprint⟩ := except_bind_eq_ok hprint
    obtain rfl := Except.ok.inj hprint
    rw [Value.plain_object, readValue_members hindent heach hparts rest hsteps, Value.ofMembers,
      Table.ofEntries_of_nodup]
    rw [Table.names_map]
    exact of_decide_eq_true hnames

/-! ## Whole texts -/

theorem skipMark_cons {c : Char} {tail : List Char} (hmark : c ≠ '\ufeff') (hoctet : c ≠ '\u00ef') :
    skipMark (c :: tail) = c :: tail := by
  unfold skipMark
  split
  · rename_i heq
    exact absurd (List.cons.inj heq).1 hmark
  · rename_i heq
    exact absurd (List.cons.inj heq).1 hoctet
  · rfl

/-- Reading starts with the first character if that is no mark and no white space. -/
theorem skipSpace_start {c : Char} (hmark : c ≠ '\ufeff') (hoctet : c ≠ '\u00ef')
    (hspace : isSpace c = false) (tail : List Char) :
    skipSpace (if Dialect.strict.allowsMark then skipMark (c :: tail) else c :: tail) =
      c :: tail := by
  have hstart : (if Dialect.strict.allowsMark then skipMark (c :: tail) else c :: tail) =
      c :: tail := skipMark_cons hmark hoctet
  rw [hstart]
  exact skipSpace_of_head? (by rintro d ⟨⟩; exact hspace)

theorem scanText_printValue {indent : List Char} (hindent : ∀ c ∈ indent, isSpace c = true)
    {v : Value} (hd : v.hasDistinctNames = true) {cs : List Char}
    (h : printValue indent 0 v = .ok cs) : scanText .strict cs = .ok v.plain := by
  have hv := readsBack_of_hasDistinctNames hindent hd
  have hread := hv [] h endsNumeral_nil (show cs.length ≤ 2 * cs.length + 2 by omega)
  obtain ⟨c, tail, rfl, hspace, hstart⟩ := head_text hv h
  rw [List.append_nil] at hread
  unfold scanText
  dsimp only
  rw [skipSpace_start (ne_of_mem_of_not_mem (by decide) hstart).symm
    (ne_of_mem_of_not_mem (by decide) hstart).symm hspace tail, hread]
  rfl

/-- **The text of a value is read as the plain form of the value.** -/
theorem read_print {indent : String} (hindent : ∀ c ∈ indent.toList, isSpace c = true)
    {v : Value} (hd : v.hasDistinctNames = true) {text : String} (h : print indent v = .ok text) :
    read .strict text.toList = .ok v.plain := by
  unfold print at h
  cases hprint : printValue indent.toList 0 v with
  | error fault =>
    rw [hprint] at h
    exact nomatch h
  | ok cs =>
    rw [hprint] at h
    obtain rfl := Except.ok.inj h
    rw [read, String.toList_ofList, scanText_printValue hindent hd hprint]

end Json

end SampleSchema
