import SampleSchema.Proofs.HistoryHoldings
import SampleSchema.Proofs.Numerals
import SampleSchema.Proofs.PlainValue
import SampleSchema.Proofs.ReadValues
/-!
# Which documents have a text

Values come into a session from texts, and its document has to become a text again. What a text was
read as is `Value.isReadable` at every depth, and this stays so down to the document. Of such a
value, a number that is not finite is all that has no text: `Json.prints_of_readable`.

No text spells such a number out, but a numeral that is too large is read as one. So a document is
written unless a sample had a numeral like that: `Session.text_run_addText`.
-/

namespace SampleSchema

namespace Value

/-! ## Tests for all parts of a value -/

/-- Passing two tests everywhere is passing everywhere the one that asks for both. -/
theorem everywhere_and_iff {test other : Value → Bool} {v : Value} :
    (v.everywhere fun w => test w && other w) = true ↔
      v.everywhere test = true ∧ v.everywhere other = true := by
  have hparts : ∀ {α : Type} {parts : List α} {value : α → Value},
      (∀ part ∈ parts, ((value part).everywhere fun w => test w && other w) = true ↔
        (value part).everywhere test = true ∧ (value part).everywhere other = true) →
      ((∀ part ∈ parts, ((value part).everywhere fun w => test w && other w) = true) ↔
        (∀ part ∈ parts, (value part).everywhere test = true) ∧
          ∀ part ∈ parts, (value part).everywhere other = true) := by
    intro α parts value ih
    rw [← forall₂_and]
    exact forall₂_congr ih
  induction v using partsInduction with
  | list items ih =>
    rw [everywhere_list_iff, everywhere_list_iff, everywhere_list_iff, hparts ih, Bool.and_eq_true]
    exact and_and_and_comm
  | tuple items ih =>
    rw [everywhere_tuple_iff, everywhere_tuple_iff, everywhere_tuple_iff, hparts ih,
      Bool.and_eq_true]
    exact and_and_and_comm
  | object members ih =>
    rw [everywhere_object_iff, everywhere_object_iff, everywhere_object_iff, hparts ih,
      Bool.and_eq_true]
    exact and_and_and_comm
  | _ => exact Bool.and_eq_true_iff

/-- Whether a value is anything but a number that is not finite. -/
def isFinite : Value → Bool
  | .float x => x.isFinite
  | _ => true

/-- Whether a value can be what a text was read as: an integer within the limit of digits, and no
octets. -/
def isReadable : Value → Bool
  | .int n => decide ((Nat.toDigits 10 n.natAbs).length ≤ Text.digitLimit)
  | .bytes _ => false
  | v => v.hasDistinctMembers

theorem regular_isReadable : Value.Regular isReadable where
  null := rfl
  bool _ := rfl
  str _ := rfl
  list _ := rfl
  object _ := decide_eq_true_iff

theorem regular_isReadable_and_isFinite : Value.Regular fun v => v.isReadable && v.isFinite where
  null := rfl
  bool _ := rfl
  str _ := rfl
  list _ := rfl
  object members := by
    rw [show (object members).isFinite = true from rfl, Bool.and_true]
    exact regular_isReadable.object members

end Value

/-! ## What is read -/

namespace Json

/-- An integer is written with no more digits than it was read from. -/
theorem isReadable_of_value? {n : Numeral} (hwhole : ∀ c ∈ n.whole, c.isDigit = true) {v : Value}
    (h : n.value? = some v) : v.isReadable = true := by
  rcases Numeral.value?_eq_some h with ⟨hshort, rfl⟩ | rfl
  · have hmagnitude : (if n.negative then -(digitsValue n.whole : Int)
        else digitsValue n.whole).natAbs = digitsValue n.whole := by
      split <;> simp
    have hlength : (Nat.toDigits 10 (digitsValue n.whole)).length ≤ Text.digitLimit := by
      rw [Nat.length_toDigits_le_iff (by decide) (by decide)]
      calc digitsValue n.whole < 10 ^ n.whole.length := digitsValue_lt hwhole
        _ ≤ 10 ^ Text.digitLimit := Nat.pow_le_pow_right (by decide) hshort
    show decide _ = true
    rw [hmagnitude]
    exact decide_eq_true hlength
  · rfl

theorem everywhere_isReadable_of_read {dialect : Dialect} (hfinite : dialect.allowsNonFinite = false)
    {text : List Char} {v : Value} (h : read dialect text = .ok v) :
    v.everywhere Value.isReadable = true :=
  everywhere_of_read Value.regular_isReadable
    (fun _ _ _ _ hscan hvalue => isReadable_of_value? (isDigit_whole_of_scan hscan) hvalue)
    hfinite h

end Json

/-! ## What is written -/

namespace Json

/-- A part is written, or it is not for a number that is not finite. -/
inductive Prints {α : Type} : Bool → Except PrintFault α → Prop where
  | written (a : α) : Prints true (.ok a)
  | notFinite : Prints false (.error .notFinite)

namespace Prints

variable {α β : Type} {finite more : Bool} {first : Except PrintFault α}

theorem bind {next : α → Except PrintFault β} (hfirst : Prints finite first)
    (hnext : ∀ a, Prints more (next a)) : Prints (finite && more) (first >>= next) := by
  cases hfirst with
  | written a => exact hnext a
  | notFinite => exact .notFinite

theorem map (f : α → β) (hfirst : Prints finite first) :
    Prints finite (first >>= fun a => .ok (f a)) := by
  cases hfirst with
  | written a => exact .written (f a)
  | notFinite => exact .notFinite

end Prints

variable {indent : List Char} {depth : Nat}

theorem prints_items {items : List Value}
    (h : ∀ item ∈ items, Prints (item.everywhere Value.isFinite) (printValue indent depth item)) :
    Prints (Value.itemsEverywhere Value.isFinite items) (printItems indent depth items) := by
  induction items with
  | nil => exact .written []
  | cons item rest ih =>
    obtain ⟨hfirst, hrest⟩ := List.forall_mem_cons.mp h
    exact hfirst.bind fun text => (ih hrest).map _

theorem prints_members {members : List (String × Value)}
    (h : ∀ member ∈ members,
      Prints (member.2.everywhere Value.isFinite) (printValue indent depth member.2)) :
    Prints (Value.membersEverywhere Value.isFinite members) (printMembers indent depth members) := by
  induction members with
  | nil => exact .written []
  | cons member rest ih =>
    obtain ⟨name, value⟩ := member
    obtain ⟨hfirst, hrest⟩ := List.forall_mem_cons.mp h
    exact hfirst.bind fun text => (ih hrest).map _

/-- A value that can be read is written exactly if all numbers in it are finite. -/
theorem prints_of_readable (indent : List Char) (depth : Nat) {v : Value}
    (h : v.everywhere Value.isReadable = true) :
    Prints (v.everywhere Value.isFinite) (printValue indent depth v) := by
  induction v using Value.partsInduction generalizing depth with
  | null => exact .written _
  | bool b => cases b <;> exact .written _
  | int n =>
    have hshort : (Nat.toDigits 10 n.natAbs).length ≤ Text.digitLimit := of_decide_eq_true h
    rw [printValue, printInt, if_neg (Nat.not_lt.mpr hshort)]
    exact .written _
  | float x =>
    cases x with
    | finite negative magnitude => exact .written _
    | infinite negative => exact .notFinite
    | nan => exact .notFinite
  | str s => exact .written _
  | bytes octets => exact absurd h Bool.false_ne_true
  | list items ih =>
    have hitems := (Value.everywhere_list_iff.mp h).2
    exact (prints_items fun item hitem => ih item hitem _ (hitems item hitem)).map _
  | tuple items ih =>
    have hitems := (Value.everywhere_tuple_iff.mp h).2
    exact (prints_items fun item hitem => ih item hitem _ (hitems item hitem)).map _
  | object members ih =>
    have hmembers := (Value.everywhere_object_iff.mp h).2
    exact (prints_members fun member hmember => ih member hmember _ (hmembers member hmember)).map _

end Json

namespace Session

/-! ## What a session shows -/

section

variable {settings : Settings} {session : Session} (hstart : start settings = .ok session)
  {calls : List Call} {document : Document}
  (hdocument : (session.run calls).1.document = .ok document)
include hstart hdocument

theorem everywhere_toValue_of_start {test : Value → Bool} (hregular : Value.Regular test)
    (hversion : settings.version.everywhere test = true)
    (hcalls : ∀ call ∈ calls, ∀ (session : Session), ∀ change ∈ session.change? call,
      change.value.everywhere test = true) :
    document.toValue.everywhere test = true :=
  Document.everywhere_toValue hregular
    (everywhere_document_of_start hregular hstart hversion hcalls hdocument)

/-- A session that was given nothing but what can be read shows the text of its document exactly if
all numbers in the document are finite. -/
theorem step_readText_run
    (hversion : settings.version.everywhere Value.isReadable = true)
    (hcalls : ∀ call ∈ calls, ∀ (session : Session), ∀ change ∈ session.change? call,
      change.value.everywhere Value.isReadable = true) :
    document.toValue.everywhere Value.isFinite = true ∧
        (∃ text, ((session.run calls).1.step .readText).2 = .ok (.text text, [])) ∨
      document.toValue.everywhere Value.isFinite = false ∧
        ((session.run calls).1.step .readText).2 = .error (.unprintable .notFinite) := by
  have hprints := Json.prints_of_readable (session.run calls).1.options.indent.toList 0
    (everywhere_toValue_of_start hstart hdocument Value.regular_isReadable hversion hcalls)
  rw [step_of_form rfl, hdocument, except_ok_bind, Document.toText, Json.print]
  revert hprints
  generalize document.toValue.everywhere Value.isFinite = finite
  generalize Json.printValue _ 0 document.toValue = result
  intro hprints
  cases hprints with
  | written cs => exact .inl ⟨rfl, String.ofList cs, rfl⟩
  | notFinite => exact .inr ⟨rfl, rfl⟩

end

/-- What a text brings in is what the text was read as. -/
theorem parse_of_change? {texts : List String} {call : Call} (hcall : call ∈ texts.map .addText)
    {session : Session} {change : Change} (hchange : change ∈ session.change? call) :
    ∃ text ∈ texts, parse text = .ok change.value := by
  obtain ⟨text, htext, rfl⟩ := List.mem_map.mp hcall
  obtain ⟨v, hv, hsample⟩ := Option.bind_eq_some_iff.mp hchange
  rw [value_of_sampleChange? hsample]
  exact ⟨text, htext, toOption_eq_some hv⟩

/-- Without a cap, a text that can be read is taken in. -/
theorem changes_addText_ne_nil {options : Options} (hcap : options.cap = .unlimited)
    {texts : List String} {text : String} (htext : text ∈ texts) {v : Value}
    (hparse : parse text = .ok v) {recent : Recent} {session : Session}
    (hfollows : Follows options recent session) :
    session.changes (texts.map .addText) ≠ [] := by
  induction texts generalizing recent session with
  | nil => exact absurd htext List.not_mem_nil
  | cons first rest ih =>
    rw [List.map_cons, changes]
    rcases List.mem_cons.mp htext with rfl | hrest
    · have hchange : session.change? (.addText text) = some (.sample v) := by
        rw [change?, hparse]
        show session.sampleChange? v = _
        rw [sampleChange?, hfollows.options_eq, hcap]
        rfl
      rw [hchange]
      exact List.cons_ne_nil _ _
    · exact List.append_ne_nil_of_right_ne_nil _ (ih hrest (follows_step hfollows _))

/-- As soon as one text could be read, there is a document. -/
theorem exists_document_run_addText {session : Session}
    (hfresh : session = { options := session.options }) (hcap : session.options.cap = .unlimited)
    {texts : List String} (hadded : ∃ text ∈ texts, ∃ v, parse text = .ok v) :
    ∃ document, (session.run (texts.map .addText)).1.document = .ok document := by
  obtain ⟨text, htext, v, hparse⟩ := hadded
  have hfollows : Follows session.options {} session := by
    rw [hfresh]
    exact follows_fresh _
  have hchanges := changes_addText_ne_nil hcap htext hparse hfollows
  cases hdocument : (session.run (texts.map .addText)).1.document with
  | ok document => exact ⟨document, rfl⟩
  | error error =>
    obtain ⟨hzero, -⟩ := document_eq_error_iff.mp hdocument
    rw [(follows_run hfollows _).count_eq] at hzero
    exact absurd ((count_ofHistory_eq_zero_iff _).mp hzero) hchanges

/-- **A document is written unless a sample overflowed.** Whatever texts were offered to a session
without settings, with or without examples, as soon as one of them was read the text of the document
is there. The one exception is that a number that is not finite got in. No text spells such a number
out, but a numeral beyond the range of binary numbers is read as one. -/
theorem text_run_addText {examples : Bool} {session : Session}
    (hstart : start { examples := .bool examples } = .ok session) {texts : List String}
    (hadded : ∃ text ∈ texts, ∃ v, parse text = .ok v) :
    (∃ written,
        ((session.run (texts.map .addText)).1.step .readText).2 = .ok (.text written, [])) ∨
      ((session.run (texts.map .addText)).1.step .readText).2 = .error (.unprintable .notFinite) ∧
        ∃ text ∈ texts, ∃ v, parse text = .ok v ∧ v.everywhere Value.isFinite = false := by
  have hcap : session.options.cap = .unlimited := by
    obtain rfl := Except.ok.inj hstart
    rfl
  obtain ⟨document, hdocument⟩ := exists_document_run_addText (start_eq hstart) hcap hadded
  have hreadable : ∀ call ∈ texts.map .addText, ∀ (session : Session),
      ∀ change ∈ session.change? call, change.value.everywhere Value.isReadable = true := by
    intro call hcall session change hchange
    obtain ⟨text, -, hparse⟩ := parse_of_change? hcall hchange
    exact Json.everywhere_isReadable_of_read rfl (read_of_parseIn hparse)
  rcases step_readText_run hstart hdocument rfl hreadable with ⟨-, hwritten⟩ | ⟨hinfinite, hfault⟩
  · exact .inl hwritten
  · refine .inr ⟨hfault, ?_⟩
    -- were all samples finite, the document would be
    by_contra hnone
    have hfinite : document.toValue.everywhere (fun v => v.isReadable && v.isFinite) = true := by
      refine everywhere_toValue_of_start hstart hdocument Value.regular_isReadable_and_isFinite rfl ?_
      intro call hcall session change hchange
      refine Value.everywhere_and_iff.mpr ⟨hreadable call hcall session change hchange, ?_⟩
      obtain ⟨text, htext, hparse⟩ := parse_of_change? hcall hchange
      by_contra hsample
      exact hnone ⟨text, htext, change.value, hparse, Bool.not_eq_true _ |>.mp hsample⟩
    rw [(Value.everywhere_and_iff.mp hfinite).2] at hinfinite
    exact nomatch hinfinite

/-- A session without settings. -/
def plainSession : Session :=
  { options := ⟨[], .unlimited, ⟨false, Detector.known⟩, some (.str draft07Url), ""⟩ }

/-- A text that cannot be read, and one that can. -/
def halfReadTexts : List String :=
  ["[1.5", "[1.5]"]

theorem text_run_addText_halfReadTexts :
    (∃ written,
        ((plainSession.run (halfReadTexts.map .addText)).1.step .readText).2 =
          .ok (.text written, [])) ∨
      ((plainSession.run (halfReadTexts.map .addText)).1.step .readText).2 =
          .error (.unprintable .notFinite) ∧
        ∃ text ∈ halfReadTexts, ∃ v, parse text = .ok v ∧ v.everywhere Value.isFinite = false := by
  have hstart : start { examples := .bool false } = .ok plainSession := rfl
  have hparse : ∃ v, parse "[1.5]" = .ok v := ⟨.list [.float _], rfl⟩
  exact text_run_addText hstart ⟨"[1.5]", by simp [halfReadTexts], hparse⟩

/-- A numeral that is too large is read, and from then on the document has no text. -/
theorem not_text_run_overflowing :
    (∃ v, parse "1e999" = .ok v) ∧
      ¬ ∃ written,
        ((plainSession.run [.addText "1e999"]).1.step .readText).2 = .ok (.text written, []) := by
  have hparse : parse "1e999" = .ok (.float (.infinite false)) := rfl
  have hadded : plainSession.step (.addText "1e999") =
      plainSession.step (.add (.float (.infinite false))) := by
    show plainSession.change (do return plainSession.add (← parse "1e999")) = _
    rw [hparse]
    rfl
  have hfault : ((plainSession.run [.addText "1e999"]).1.step .readText).2 =
      .error (.unprintable .notFinite) := by
    rw [run_cons, hadded]
    rfl
  rw [hfault]
  exact ⟨⟨_, hparse⟩, nofun⟩

end Session

end SampleSchema
