import SampleSchema.Proofs.HistoryHoldings
import SampleSchema.Proofs.JsonText
import SampleSchema.Proofs.ReadValues
import SampleSchema.Proofs.Rereading
/-!
# Reloading the text of a document

The text that a session shows can be given back to it. `reload_text` says that this loses nothing
that is shown: whatever calls came before, the text is loaded, and is the next text to be read.

Four transformations meet in it. The document is written as a value (`Document.everywhere_toValue`
says what is in there), the value is printed and read back (`Json.read_print`), and a document and
a node are made of what was read (`Document.exists_reread` and `Document.exists_node`).
-/

namespace SampleSchema

/-! ## Distinct names -/

namespace Session

theorem hasDistinctNames_of_parse {text : String} {v : Value} (h : parse text = .ok v) :
    v.hasDistinctNames = true := by
  refine Json.everywhere_of_read Value.regular_hasDistinctMembers ?_ rfl (read_of_parseIn h)
  intro cs rest n v _ hvalue
  rcases Json.Numeral.value?_eq_some hvalue with ⟨-, rfl⟩ | rfl
  · rfl
  · rfl

theorem hasDistinctNames_of_parseOctets {octets : List UInt8} {v : Value}
    (h : parseOctets octets = .ok v) : v.hasDistinctNames = true := by
  unfold parseOctets at h
  split at h
  · exact hasDistinctNames_of_parse h
  · exact nomatch h

/-- Whether the value that a call hands over, if it does, has distinct names. -/
def Call.hasDistinctNames : Call → Bool
  | .add v | .load v => v.hasDistinctNames
  | .loadDocument document => document.toValue.hasDistinctNames
  | _ => true

theorem hasDistinctNames_of_given {v w : Value} (hv : v.hasDistinctNames = true)
    (h : given v = .ok w) : w.hasDistinctNames = true := by
  cases v with
  | str text => exact hasDistinctNames_of_parse h
  | bytes octets => exact hasDistinctNames_of_parseOctets h
  | _ =>
    obtain rfl := Except.ok.inj h
    exact hv

theorem hasDistinctNames_of_change? {session : Session} {call : Call} {change : Change}
    (hcall : call.hasDistinctNames = true) (h : session.change? call = some change) :
    change.value.hasDistinctNames = true := by
  cases call with
  | add v =>
    rw [value_of_sampleChange? h]
    exact hcall
  | addText text =>
    obtain ⟨v, hv, hchange⟩ := Option.bind_eq_some_iff.mp h
    rw [value_of_sampleChange? hchange]
    exact hasDistinctNames_of_parse (toOption_eq_some hv)
  | addOctets octets =>
    obtain ⟨v, hv, hchange⟩ := Option.bind_eq_some_iff.mp h
    rw [value_of_sampleChange? hchange]
    exact hasDistinctNames_of_parseOctets (toOption_eq_some hv)
  | load v =>
    obtain ⟨w, hw, hchange⟩ := Option.bind_eq_some_iff.mp h
    rw [value_of_documentChange? hchange]
    exact hasDistinctNames_of_given hcall (toOption_eq_some hw)
  | loadDocument document =>
    rw [value_of_documentChange? h]
    exact hcall
  | reload =>
    obtain ⟨w, hw, hchange⟩ := Option.bind_eq_some_iff.mp h
    obtain ⟨text, -, hparse⟩ := except_bind_eq_ok (toOption_eq_some hw)
    rw [value_of_documentChange? hchange]
    exact hasDistinctNames_of_parse hparse
  | readDocument => exact nomatch h
  | readText => exact nomatch h
  | readLine => exact nomatch h

/-! ## Reloading -/

/-- A text is loaded like the value that it is read as. -/
theorem step_load_text {text : String} {v : Value} (hparse : parse text = .ok v)
    (hgiven : given v = .ok v) (session : Session) :
    session.step (.load (.str text)) = session.step (.load v) := by
  have htext : given (.str text) = .ok v := hparse
  rw [step, step, load_eq, load_eq, htext, hgiven]

theorem toText_eq_ok_iff {indent : String} {document : Document} {text : String} :
    document.toText indent = .ok text ↔ Json.print indent document.toValue = .ok text := by
  unfold Document.toText
  cases Json.print indent document.toValue with
  | ok other => simp
  | error fault => simp

theorem print_plain (indent : String) (v : Value) : Json.print indent v.plain = Json.print indent v := by
  rw [Json.print, Json.printValue_plain, Json.print]

/-- The text of a sound document is read as the plain value of the document. -/
theorem parse_of_toText {indent : String}
    (hindent : ∀ c ∈ indent.toList, Json.isSpace c = true) {document : Document}
    (hdocument : document.Everywhere (Document.Sound Value.hasDistinctMembers)) {text : String}
    (htext : document.toText indent = .ok text) : parse text = .ok document.toValue.plain := by
  have hdistinct : document.toValue.hasDistinctNames = true :=
    Document.everywhere_toValue Value.regular_hasDistinctMembers hdocument
  rw [parse, parseIn, Json.read_print hindent hdistinct (toText_eq_ok_iff.mp htext)]

/-- The text of a sound document can be loaded, and the loaded document has that text. -/
theorem exists_loadable_of_text {indent : String}
    (hindent : ∀ c ∈ indent.toList, Json.isSpace c = true) {document : Document}
    (hdocument : document.Everywhere (Document.Sound Value.hasDistinctMembers))
    (htype : document.type = some (.str "object")) {text : String}
    (htext : document.toText indent = .ok text) :
    ∃ v root other, parse text = .ok v ∧ loadable v = .ok (root, other) ∧
      other.toText indent = .ok text := by
  have hprint := toText_eq_ok_iff.mp htext
  have hparse := parse_of_toText hindent hdocument htext
  obtain ⟨other, hother, hreread⟩ := Document.exists_reread hdocument
  obtain ⟨root, hroot⟩ := Document.exists_node hdocument 1
  have hobject : ∃ members, document.toValue.plain = .object members ∧
      Value.member "type" members = .str "object" := by
    refine ⟨_, by rw [Document.toValue_eq, Value.plain_object], ?_⟩
    obtain ⟨-, hkeyword, -⟩ := Document.member_keywords document
    rw [Value.member_map_plain, hkeyword, htype]
    rfl
  refine ⟨_, root, other, hparse, loadable_eq_ok_iff.mpr ⟨hobject, hroot, hother⟩, ?_⟩
  rw [toText_eq_ok_iff, hreread.toValue, print_plain, hprint]

theorem sound_document_of_start {settings : Settings} {origin : Session}
    (hstart : start settings = .ok origin) (hversion : settings.version.hasDistinctNames = true)
    {calls : List Call} (hcalls : ∀ call ∈ calls, call.hasDistinctNames = true) {document : Document}
    (hdocument : (origin.run calls).1.document = .ok document) :
    document.Everywhere (Document.Sound Value.hasDistinctMembers) :=
  everywhere_document_of_start Value.regular_hasDistinctMembers hstart hversion
    (fun call hcall _ _ hchange => hasDistinctNames_of_change? (hcalls call hcall) hchange) hdocument

/-- So is the text that any calls lead to. -/
theorem parse_of_text {settings : Settings} {origin : Session} (hstart : start settings = .ok origin)
    (hversion : settings.version.hasDistinctNames = true)
    (hindent : ∀ c ∈ origin.options.indent.toList, Json.isSpace c = true) {calls : List Call}
    (hcalls : ∀ call ∈ calls, call.hasDistinctNames = true) {document : Document}
    (hdocument : (origin.run calls).1.document = .ok document) {text : String}
    (htext : (origin.run calls).1.text = .ok text) : parse text = .ok document.toValue.plain := by
  have hsound := sound_document_of_start hstart hversion hcalls hdocument
  rw [start_eq hstart] at hdocument htext
  rw [Session.text, hdocument, except_ok_bind,
    (follows_run (follows_fresh origin.options) calls).options_eq] at htext
  exact parse_of_toText hindent hsound htext

/-- **Reloading a text changes nothing that is read.** After any calls of a session whose
indentation is white space, the text of a document with the type object can be loaded. It counts as
one sample then, and the text that is read next is the same, character by character. -/
theorem reload_text {settings : Settings} {session : Session}
    (hstart : start settings = .ok session) (hversion : settings.version.hasDistinctNames = true)
    (hindent : ∀ c ∈ session.options.indent.toList, Json.isSpace c = true) {calls : List Call}
    (hcalls : ∀ call ∈ calls, call.hasDistinctNames = true) {document : Document}
    (hdocument : (session.run calls).1.document = .ok document)
    (htype : document.type = some (.str "object")) {after : Session} {text : String}
    (htext : (session.run calls).1.step .readText = (after, .ok (.text text, []))) :
    ∃ reloaded notices, after.step (.load (.str text)) = (reloaded, .ok (.done, notices)) ∧
      reloaded.count = 1 ∧ (reloaded.step .readText).2 = .ok (.text text, []) := by
  have hsound : document.Everywhere (Document.Sound Value.hasDistinctMembers) :=
    everywhere_document_of_start Value.regular_hasDistinctMembers hstart hversion
      (fun call hcall _ _ hchange => hasDistinctNames_of_change? (hcalls call hcall) hchange)
      hdocument
  rw [start_eq hstart] at hdocument htext
  -- the session that showed the text only remembers the document, under the same options
  have hfollows := follows_run (follows_fresh session.options) calls
  obtain ⟨hafter, hanswer⟩ := Prod.mk.inj htext
  have halike := alike_remember (run { options := session.options } calls).1
  have hoptionsAfter : after.options = session.options := by
    rw [← hafter]
    exact halike.options.trans hfollows.options_eq
  have htext : document.toText session.options.indent = .ok text := by
    rw [hdocument, hfollows.options_eq, except_ok_bind] at hanswer
    obtain ⟨answer, hform, hanswer⟩ := except_bind_eq_ok hanswer
    obtain ⟨shown, hshown, hform⟩ := except_bind_eq_ok hform
    obtain rfl := Except.ok.inj hform
    obtain rfl := Answer.text.inj (Prod.mk.inj (Except.ok.inj hanswer)).1
    exact hshown
  obtain ⟨v, root, other, hparse, hload, hother⟩ := exists_loadable_of_text hindent hsound htype htext
  refine ⟨{ after with root, count := 1, current := some other },
    [.documentLoaded root.properties.length], ?_, rfl, ?_⟩
  · rw [step, load, hparse, except_ok_bind, loadValue, hload]
    rfl
  · show (do return (← (do return Answer.text (← other.toText after.options.indent)), [])) = _
    rw [hoptionsAfter, hother]
    rfl

/-- A session that writes every part of a document on a line of its own, behind tabs. -/
def laidOutSession : Session :=
  { options := ⟨[], .unlimited, ⟨false, []⟩, none, "\t"⟩ }

/-- A sample whose only constant counts as false. -/
def zeroCalls : List Call :=
  [.add (.object [("a", .int 0)])]

def zeroText : String :=
  "\x7b\n\t\"type\": \"object\",\n\t\"properties\": \x7b\n\t\t\"a\": \x7b\n\t\t\t\"type\": \"integer\"," ++
  "\n\t\t\t\"const\": 0\n\t\t\x7d\n\t\x7d,\n\t\"required\": [\n\t\t\"a\"\n\t]\n\x7d"

set_option maxRecDepth 8000 in
theorem reload_text_zeroText :
    ∃ reloaded notices,
      (laidOutSession.run zeroCalls).1.remember.step (.load (.str zeroText)) =
        (reloaded, .ok (.done, notices)) ∧
      reloaded.count = 1 ∧ (reloaded.step .readText).2 = .ok (.text zeroText, []) := by
  have hstart : start { knownFormats := .bool false, version := .null, indent := .str "\t" } =
      .ok laidOutSession := rfl
  have htext : (laidOutSession.run zeroCalls).1.step .readText =
      ((laidOutSession.run zeroCalls).1.remember, .ok (.text zeroText, [])) := rfl
  have hindent : ∀ c ∈ laidOutSession.options.indent.toList, Json.isSpace c = true :=
    List.forall_mem_singleton.mpr rfl
  exact reload_text hstart (by decide) hindent (by decide) rfl rfl htext

end Session

end SampleSchema
