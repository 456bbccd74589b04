import SampleSchema.Proofs.JsonText
import SampleSchema.Proofs.Octets
import SampleSchema.Proofs.Writability
/-!
# Samples as texts and as values

A program hands over samples as values, a reader of files as texts or octets. For what JSON can
express this makes no difference: `run_addText_eq_run_add` says that the text of such a value, and the
octets of this text, lead any session to where the value itself leads it.

Two things are needed of a value for that. It has to have a text (`exists_print_of_isJson`), and
what its text is read as has to be the value itself (`plain_of_isJson`), so that a fixed sequence
will not do.
-/

namespace SampleSchema

/-! ## What JSON can express -/

namespace Value

/-- Whether a value, its parts aside, is one that a JSON text can be read as. Numbers that are too
long or not finite have no text, octets and fixed sequences come back as something else, and the
members of an object have distinct names. -/
def isJson : Value → Bool
  | .int n => decide ((Nat.toDigits 10 n.natAbs).length ≤ Text.digitLimit)
  | .float x => x.isFinite
  | .bytes _ | .tuple _ => false
  | v => v.hasDistinctMembers

/-- A test that is implied by another one is passed wherever that one is. -/
theorem everywhere_mono {test other : Value → Bool} (h : ∀ v, test v = true → other v = true)
    {v : Value} (hv : v.everywhere test = true) : v.everywhere other = true := by
  induction v using partsInduction with
  | list items ih =>
    obtain ⟨hhere, hitems⟩ := everywhere_list_iff.mp hv
    exact everywhere_list_iff.mpr ⟨h _ hhere, fun item hitem => ih item hitem (hitems item hitem)⟩
  | tuple items ih =>
    obtain ⟨hhere, hitems⟩ := everywhere_tuple_iff.mp hv
    exact everywhere_tuple_iff.mpr ⟨h _ hhere, fun item hitem => ih item hitem (hitems item hitem)⟩
  | object members ih =>
    obtain ⟨hhere, hmembers⟩ := everywhere_object_iff.mp hv
    exact everywhere_object_iff.mpr
      ⟨h _ hhere, fun member hmember => ih member hmember (hmembers member hmember)⟩
  | _ => exact h _ hv

theorem isReadable_of_isJson (v : Value) (h : v.isJson = true) : v.isReadable = true := by
  cases v with
  | float x => rfl
  | bytes octets => exact h
  | tuple items => exact nomatch h
  | _ => exact h

theorem isFinite_of_isJson (v : Value) (h : v.isJson = true) : v.isFinite = true := by
  cases v with
  | float x => exact h
  | _ => rfl

theorem hasDistinctMembers_of_isJson (v : Value) (h : v.isJson = true) :
    v.hasDistinctMembers = true := by
  cases v with
  | object members => exact h
  | _ => rfl

/-- The text of such a value stands for the value itself. -/
theorem plain_of_isJson {v : Value} (hv : v.everywhere isJson = true) : v.plain = v := by
  induction v using partsInduction with
  | bytes octets => exact nomatch hv
  | tuple items ih => exact nomatch (everywhere_tuple_iff.mp hv).1
  | list items ih =>
    have hitems := (everywhere_list_iff.mp hv).2
    have hself : items.map plain = items.map id :=
      List.map_congr_left fun item hitem => ih item hitem (hitems item hitem)
    rw [plain_list, hself, List.map_id]
  | object members ih =>
    have hmembers := (everywhere_object_iff.mp hv).2
    have hself : members.map (fun member => (member.1, member.2.plain)) = members.map id :=
      List.map_congr_left fun member hmember =>
        Prod.ext rfl (ih member hmember (hmembers member hmember))
    rw [plain_object, hself, List.map_id]
  | _ => rfl

end Value

theorem Json.exists_print_of_isJson (indent : String) {v : Value}
    (hv : v.everywhere Value.isJson = true) : ∃ text, print indent v = .ok text := by
  have hprints := prints_of_readable indent.toList 0
    (Value.everywhere_mono Value.isReadable_of_isJson hv)
  rw [Value.everywhere_mono Value.isFinite_of_isJson hv] at hprints
  unfold print
  generalize printValue indent.toList 0 v = result at hprints ⊢
  cases hprints with
  | written cs => exact ⟨String.ofList cs, rfl⟩

namespace Session

/-! ## One sample -/

/-- The text of such a value is read as the value. -/
theorem parse_of_print {indent : String} (hindent : ∀ c ∈ indent.toList, Json.isSpace c = true)
    {v : Value} (hv : v.everywhere Value.isJson = true) {text : String}
    (htext : Json.print indent v = .ok text) : parse text = .ok v := by
  have hdistinct : v.hasDistinctNames = true :=
    Value.everywhere_mono Value.hasDistinctMembers_of_isJson hv
  rw [parse, parseIn, Json.read_print hindent hdistinct htext, Value.plain_of_isJson hv]

/-- Octets are read like the text that they encode. -/
theorem parseOctets_encodeUtf8 (text : String) :
    parseOctets (Text.encodeUtf8 text) = parse text := by
  rw [parseOctets, Text.decodeUtf8_encodeUtf8]
  dsimp only
  rw [String.ofList_toList]

theorem step_addText_of_parse (session : Session) {text : String} {v : Value}
    (hparse : parse text = .ok v) : session.step (.addText text) = session.step (.add v) := by
  show session.change (do return session.add (← parse text)) = _
  rw [hparse]
  rfl

theorem step_addOctets_encodeUtf8 (session : Session) (text : String) :
    session.step (.addOctets (Text.encodeUtf8 text)) = session.step (.addText text) := by
  show session.change (do return session.add (← parseOctets (Text.encodeUtf8 text))) = _
  rw [parseOctets_encodeUtf8]
  rfl

/-! ## Whole runs -/

theorem run_cons_congr {session : Session} {call other : Call}
    (h : session.step call = session.step other) (later : List Call) :
    session.run (call :: later) = session.run (other :: later) := by
  rw [run_cons, run_cons, h]

/-- **A sample counts the same as a value, as a text and as octets.** In every session, a value that
JSON can express has a text under every indentation that is white space. The session that is given
this text, or its octets, is from then on the one that is given the value: it has the same count,
and answers all later calls in the same way. -/
theorem run_addText_eq_run_add (session : Session) {indent : String}
    (hindent : ∀ c ∈ indent.toList, Json.isSpace c = true) {v : Value}
    (hv : v.everywhere Value.isJson = true) :
    ∃ text, Json.print indent v = .ok text ∧ ∀ later,
      session.run (.addText text :: later) = session.run (.add v :: later) ∧
      session.run (.addOctets (Text.encodeUtf8 text) :: later) = session.run (.add v :: later) := by
  obtain ⟨text, htext⟩ := Json.exists_print_of_isJson indent hv
  have hstep : session.step (.addText text) = session.step (.add v) :=
    step_addText_of_parse session (parse_of_print hindent hv htext)
  refine ⟨text, htext, fun later => ⟨run_cons_congr hstep later, ?_⟩⟩
  exact run_cons_congr ((step_addOctets_encodeUtf8 session text).trans hstep) later

/-- A sample with empty and nested parts, quotes and controls, and both kinds of numbers. -/
def variedSample : Value :=
  .object [("", .list []), ("z\n\"", .object []), ("é\u0001", .list [.null, .bool true, .int (-7)]),
    ("half", .float (.finite true ⟨Nat.pow 2 52, 1021, by decide⟩))]

theorem run_addText_variedSample :
    ∃ text, Json.print "\t" variedSample = .ok text ∧ ∀ later,
      plainSession.run (.addText text :: later) = plainSession.run (.add variedSample :: later) ∧
      plainSession.run (.addOctets (Text.encodeUtf8 text) :: later) =
        plainSession.run (.add variedSample :: later) := by
  have hindent : ∀ c ∈ ("\t" : String).toList, Json.isSpace c = true :=
    List.forall_mem_singleton.mpr rfl
  have hv : variedSample.everywhere Value.isJson = true := by decide
  exact run_addText_eq_run_add plainSession hindent hv

end Session

end SampleSchema
