import SampleSchema.Json.Reader
import SampleSchema.Proofs.Failure
import SampleSchema.Proofs.Holdings
/-!
# What a text can be read as

Reading makes values from strings, arrays, objects, words and numerals, and from nothing else. So a
test that says nothing against the others is passed by all that is read, at every depth, if the
values of numerals pass it. This is so in every dialect without words for numbers that are not
finite.
-/

namespace SampleSchema

namespace Json

variable {test : Value → Bool} {dialect : Dialect}

/-- A numeral is read as an integer, if it is not too long, or as a binary number. -/
theorem Numeral.value?_eq_some {n : Numeral} {v : Value} (h : n.value? = some v) :
    n.whole.length ≤ Text.digitLimit ∧
        v = .int (if n.negative then -(digitsValue n.whole : Int) else digitsValue n.whole) ∨
      v = .float (n.toDecimal.toBinary64 n.negative) := by
  unfold Numeral.value? at h
  split at h
  · split at h
    · exact nomatch h
    · rename_i hshort
      exact .inl ⟨Nat.le_of_not_lt hshort, (Option.some.inj h).symm⟩
  · exact .inr (Option.some.inj h).symm

/-- A word or numeral is read as null, as a truth value, or as the value of the numeral. -/
theorem scanAtom_eq_ok (hfinite : dialect.allowsNonFinite = false) {cs rest : List Char} {v : Value}
    (h : scanAtom dialect cs = .ok (v, rest)) :
    v = .null ∨ (∃ b, v = .bool b) ∨ ∃ n, Numeral.scan cs = some (n, rest) ∧ n.value? = some v := by
  unfold scanAtom at h
  split at h
  · rename_i result hword
    obtain rfl := Except.ok.inj h
    rw [scanWord, hfinite, if_neg Bool.false_ne_true] at hword
    obtain ⟨⟨word, value⟩, hmem, hafter⟩ := List.exists_of_findSome?_eq_some hword
    obtain ⟨tail, -, hvalue⟩ := Option.map_eq_some_iff.mp hafter
    obtain ⟨rfl, rfl⟩ := Prod.mk.inj hvalue
    have hknown : (word, value) ∈ words := hmem
    simp only [words, List.mem_cons, Prod.mk.injEq, List.not_mem_nil, or_false] at hknown
    rcases hknown with ⟨-, rfl⟩ | ⟨-, rfl⟩ | ⟨-, rfl⟩
    · exact .inl rfl
    · exact .inr (.inl ⟨true, rfl⟩)
    · exact .inr (.inl ⟨false, rfl⟩)
  · split at h
    · exact nomatch h
    · rename_i n tail hscan
      split at h
      · rename_i value hvalue
        obtain ⟨rfl, rfl⟩ := Prod.mk.inj (Except.ok.inj h)
        exact .inr (.inr ⟨n, hscan, hvalue⟩)
      · exact nomatch h

section

variable (hregular : Value.Regular test)
include hregular

theorem everywhere_ofMembers {members : List (String × Value)}
    (hmembers : ∀ member ∈ members, member.2.everywhere test = true) :
    (Value.ofMembers members).everywhere test = true := by
  rw [Value.ofMembers, Value.everywhere_object_iff]
  exact ⟨(hregular.object _).mpr (Table.nodup_names_ofEntries members),
    Table.forall_mem_ofEntries (P := fun v : Value => v.everywhere test = true) hmembers⟩

variable (hnumeral : ∀ cs rest (n : Numeral) v, Numeral.scan cs = some (n, rest) →
  n.value? = some v → test v = true) (hfinite : dialect.allowsNonFinite = false)
include hnumeral hfinite

theorem everywhere_of_scanAtom {cs rest : List Char} {v : Value}
    (h : scanAtom dialect cs = .ok (v, rest)) : v.everywhere test = true := by
  rcases scanAtom_eq_ok hfinite h with rfl | ⟨b, rfl⟩ | ⟨n, hscan, hvalue⟩
  · exact hregular.null
  · exact hregular.bool b
  · have htest := hnumeral cs rest n v hscan hvalue
    rcases Numeral.value?_eq_some hvalue with ⟨-, rfl⟩ | rfl
    · exact htest
    · exact htest

section Steps

variable {steps : Nat} {cs rest : List Char}

theorem everywhere_readValue
    (hitems : ∀ cs items rest, readItems dialect steps cs = .ok (items, rest) →
      ∀ item ∈ items, item.everywhere test = true)
    (hmembers : ∀ cs members rest, readMembers dialect steps cs = .ok (members, rest) →
      ∀ member ∈ members, member.2.everywhere test = true)
    {v : Value} (h : readValue dialect (steps + 1) cs = .ok (v, rest)) :
    v.everywhere test = true := by
  unfold readValue at h
  split at h
  · obtain ⟨⟨text, tail⟩, -, h⟩ := except_bind_eq_ok h
    obtain ⟨rfl, rfl⟩ := Prod.mk.inj (Except.ok.inj h)
    exact hregular.str _
  · split at h
    · exact nomatch h
    · obtain ⟨rfl, rfl⟩ := Prod.mk.inj (Except.ok.inj h)
      exact Value.everywhere_list_iff.mpr ⟨hregular.list [], nofun⟩
    · obtain ⟨⟨items, tail⟩, hread, h⟩ := except_bind_eq_ok h
      obtain ⟨rfl, rfl⟩ := Prod.mk.inj (Except.ok.inj h)
      exact Value.everywhere_list_iff.mpr ⟨hregular.list _, hitems _ _ _ hread⟩
  · split at h
    · exact nomatch h
    · obtain ⟨rfl, rfl⟩ := Prod.mk.inj (Except.ok.inj h)
      exact Value.everywhere_object_iff.mpr
        ⟨(hregular.object []).mpr .nil, fun _ h => absurd h List.not_mem_nil⟩
    · obtain ⟨⟨members, tail⟩, hread, h⟩ := except_bind_eq_ok h
      obtain ⟨rfl, rfl⟩ := Prod.mk.inj (Except.ok.inj h)
      exact everywhere_ofMembers hregular (hmembers _ _ _ hread)
  · exact everywhere_of_scanAtom hregular hnumeral hfinite h

omit hregular hnumeral hfinite in
theorem everywhere_readItems
    (hvalue : ∀ cs v rest, readValue dialect steps cs = .ok (v, rest) → v.everywhere test = true)
    (hitems : ∀ cs items rest, readItems dialect steps cs = .ok (items, rest) →
      ∀ item ∈ items, item.everywhere test = true)
    {items : List Value} (h : readItems dialect (steps + 1) cs = .ok (items, rest)) :
    ∀ item ∈ items, item.everywhere test = true := by
  unfold readItems at h
  obtain ⟨⟨item, tail⟩, hread, h⟩ := except_bind_eq_ok h
  have hfirst := hvalue _ _ _ hread
  dsimp only at h
  split at h
  · obtain ⟨rfl, rfl⟩ := Prod.mk.inj (Except.ok.inj h)
    exact List.forall_mem_singleton.mpr hfirst
  · obtain ⟨⟨others, last⟩, hothers, h⟩ := except_bind_eq_ok h
    obtain ⟨rfl, rfl⟩ := Prod.mk.inj (Except.ok.inj h)
    exact List.forall_mem_cons.mpr ⟨hfirst, hitems _ _ _ hothers⟩
  · exact nomatch h

omit hregular hnumeral hfinite in
theorem everywhere_readMembers
    (hvalue : ∀ cs v rest, readValue dialect steps cs = .ok (v, rest) → v.everywhere test = true)
    (hmembers : ∀ cs members rest, readMembers dialect steps cs = .ok (members, rest) →
      ∀ member ∈ members, member.2.everywhere test = true)
    {members : List (String × Value)}
    (h : readMembers dialect (steps + 1) cs = .ok (members, rest)) :
    ∀ member ∈ members, member.2.everywhere test = true := by
  unfold readMembers at h
  split at h
  · obtain ⟨⟨name, colon⟩, -, h⟩ := except_bind_eq_ok h
    dsimp only at h
    split at h
    · obtain ⟨⟨value, tail⟩, hread, h⟩ := except_bind_eq_ok h
      have hfirst := hvalue _ _ _ hread
      dsimp only at h
      split at h
      · obtain ⟨rfl, rfl⟩ := Prod.mk.inj (Except.ok.inj h)
        exact List.forall_mem_singleton.mpr hfirst
      · obtain ⟨⟨others, last⟩, hothers, h⟩ := except_bind_eq_ok h
        obtain ⟨rfl, rfl⟩ := Prod.mk.inj (Except.ok.inj h)
        exact List.forall_mem_cons.mpr ⟨hfirst, hmembers _ _ _ hothers⟩
      · exact nomatch h
    · exact nomatch h
  · exact nomatch h

end Steps

/-- With one more step, reading still makes nothing but what it made in the steps before. -/
theorem everywhere_of_reads (steps : Nat) :
    (∀ cs v rest, readValue dialect steps cs = .ok (v, rest) → v.everywhere test = true) ∧
    (∀ cs items rest, readItems dialect steps cs = .ok (items, rest) →
      ∀ item ∈ items, item.everywhere test = true) ∧
    (∀ cs members rest, readMembers dialect steps cs = .ok (members, rest) →
      ∀ member ∈ members, member.2.everywhere test = true) := by
  induction steps with
  | zero => exact ⟨nofun, nofun, nofun⟩
  | succ steps ih =>
    obtain ⟨ihValue, ihItems, ihMembers⟩ := ih
    exact ⟨fun _ _ _ => everywhere_readValue hregular hnumeral hfinite ihItems ihMembers,
      fun _ _ _ => everywhere_readItems ihValue ihItems,
      fun _ _ _ => everywhere_readMembers ihValue ihMembers⟩

/-- Everything in a value that was read passes the test. -/
theorem everywhere_of_read {text : List Char} {v : Value} (h : read dialect text = .ok v) :
    v.everywhere test = true := by
  unfold read at h
  split at h
  · rename_i value hscan
    obtain rfl := Except.ok.inj h
    unfold scanText at hscan
    dsimp only at hscan
    obtain ⟨⟨value, rest⟩, hvalue, hscan⟩ := except_bind_eq_ok hscan
    dsimp only at hscan
    split at hscan
    · obtain rfl := Except.ok.inj hscan
      exact (everywhere_of_reads hregular hnumeral hfinite _).1 _ _ _ hvalue
    · exact nomatch hscan
  · exact nomatch h

end

end Json

/-- A text that is taken in was read without a fault. -/
theorem Session.read_of_parseIn {dialect : Json.Dialect} {text : String} {v : Value}
    (h : parseIn dialect text = .ok v) : Json.read dialect text.toList = .ok v := by
  unfold parseIn at h
  split at h
  · rename_i value hread
    obtain rfl := Except.ok.inj h
    exact hread
  · exact nomatch h
  · exact nomatch h

end SampleSchema
