import SampleSchema.Proofs.Shape
import SampleSchema.Proofs.TextSamples
/-!
# The documents of a session

A session can go on from its own text. This module follows the shape of documents through such
runs, where a document becomes a tree again, over and over.

* `Session.OwnRun` are the runs that load nothing but texts of their own.
* `Session.Shaped` is the invariant: the tree is supported, and the document to read, if there is
  one, is placed throughout.
* `Session.shaped_step` is the step, and `Session.OwnRun.shaped` the run.
* `Session.wellFormed_of_ownRun` reads the shape off at every position of the document.

Between the parts of a text stands the indentation, whatever it is. One that is not white space is
read as a part of the document, so that such texts have no shape to rely on.
-/

namespace SampleSchema

/-! ## Parts of placed documents -/

namespace Document

/-- Below a placed document, only the items can be without a type, and nothing has a version. -/
theorem Everywhere.wellFormed_of_sub? {document below : Document} (h : document.Everywhere Placed)
    (htype : document.type ≠ none) {position : Position}
    (hbelow : document.sub? position = some below) :
    ∃ types, below.WellFormed types ∧ (types = [] → position.getLast? = some none) ∧
      (below.version ≠ none → position = []) := by
  obtain ⟨types, hwell⟩ := (h.of_sub? hbelow).here.wellFormed
  have hnone : types = [] → below.type = none :=
    fun htypes => hwell.type.trans (typeKeyword_eq_none_iff.mpr htypes)
  refine ⟨types, hwell, ?_⟩
  -- what a part owes to its place is known where the last step starts
  rcases List.eq_nil_or_concat position with rfl | ⟨above, step, rfl⟩
  · obtain rfl := Option.some.inj hbelow
    exact ⟨fun htypes => absurd (hnone htypes) htype, fun _ => rfl⟩
  · rw [List.concat_eq_append, sub?_append] at hbelow
    obtain ⟨parent, hparent, hstep⟩ := Option.bind_eq_some_iff.mp hbelow
    have hplaced := (h.of_sub? hparent).here
    rw [List.concat_eq_append, List.getLast?_concat]
    cases step with
    | none =>
      obtain ⟨items, hitems, hlast⟩ := Option.bind_eq_some_iff.mp hstep
      obtain rfl := Option.some.inj hlast
      exact ⟨fun _ => rfl, absurd (hplaced.items items hitems)⟩
    | some name =>
      obtain ⟨child, hchild, hlast⟩ := Option.bind_eq_some_iff.mp hstep
      obtain rfl := Option.some.inj hlast
      obtain ⟨htyped, hversion⟩ := hplaced.properties _ (Table.mem_of_get?_eq_some hchild)
      exact ⟨fun htypes => absurd (hnone htypes) htyped, absurd hversion⟩

/-- Required names are listed only if there are some. -/
theorem get?_required_ne_nil (document : Document) :
    Table.get? "required" document.keywords ≠ some (.list []) := by
  simp [keywords, Table.get?_append, get?_keyword, get?_keywordUnlessEmpty]

end Document

namespace Session

/-! ## Runs that load their own texts -/

/-- A call that brings no document, or the text that is shown after these calls, or one that was
shown earlier. -/
inductive IsOwn (origin : Session) (calls : List Call) : Call → Prop where
  | other {call : Call} (h : call.isLoad = false) : IsOwn origin calls call
  | reload : IsOwn origin calls .reload
  | load {earlier : List Call} {text : String} (hearlier : earlier <+: calls)
      (htext : (origin.run earlier).1.text = .ok text) : IsOwn origin calls (.load (.str text))

/-- The calls of a session that loads nothing but its own texts. -/
inductive OwnRun (origin : Session) : List Call → Prop where
  | nil : OwnRun origin []
  | snoc {calls : List Call} {call : Call} (h : OwnRun origin calls)
      (hcall : IsOwn origin calls call) : OwnRun origin (calls ++ [call])

theorem isLoad_of_change? {session : Session} {call : Call} {v : Value}
    (h : session.change? call = some (.document v)) : call.isLoad = true := by
  have heffect := effect_step session call
  rw [h] at heffect
  generalize session.step call = outcome at heffect
  cases heffect with
  | loaded _ hadd hform _ =>
    cases call with
    | load document => rfl
    | loadDocument document => rfl
    | reload => rfl
    | add _ | addText _ | addOctets _ => exact nomatch hadd
    | readDocument | readText | readLine => exact nomatch hform

theorem step_reload_of_parse {session : Session} {text : String} {v : Value}
    (htext : session.text = .ok text) (hparse : parse text = .ok v) :
    session.step .reload = session.remember.change (session.loadValue v) := by
  have hread : session.text.bind parse = .ok v := by
    rw [htext]
    exact hparse
  rw [step_reload_eq, hread]
  rfl

/-! ## The invariant -/

/-- A session whose tree supports well formed documents, and that shows only such a document. -/
structure Shaped (session : Session) : Prop where
  tree : session.root.Everywhere Node.Supported
  document : ∀ document, session.document = .ok document →
    document.type ≠ none ∧ document.Everywhere Document.Placed

theorem Shaped.of_alike {session other : Session} (h : session.Shaped)
    (halike : other.Alike session) : other.Shaped := by
  refine ⟨?_, ?_⟩
  · rw [halike.root]
    exact h.tree
  · rw [halike.document]
    exact h.document

theorem shaped_fresh (options : Options) : Shaped { options } :=
  ⟨Node.everywhere_of_fresh Node.supported_fresh, nofun⟩

theorem shaped_assembled {session : Session} (htree : session.root.Everywhere Node.Supported)
    (hcurrent : session.current = none) (hcounted : session.root.types ≠ []) : session.Shaped := by
  refine ⟨htree, fun document hdocument => ?_⟩
  unfold Session.document at hdocument
  split at hdocument
  · exact nomatch hdocument
  · rw [hcurrent] at hdocument
    rw [← Except.ok.inj hdocument]
    exact ⟨Document.type_assemble_ne_none _ htree.here.coherent hcounted,
      Document.everywhere_placed_assemble _ htree⟩

/-- What is loaded from the value of a placed document. -/
theorem shaped_loaded {session : Session} {written : Document}
    (hplaced : written.Everywhere Document.Placed)
    (hsound : written.Everywhere (Document.Sound Value.hasDistinctMembers)) {root : Node}
    {document : Document} (hload : loadable written.toValue.plain = .ok (root, document))
    (hdistinct : written.toValue.plain.hasDistinctNames = true) :
    Shaped { session with root, count := 1, current := some document } := by
  obtain ⟨hobject, hroot, hdocument⟩ := loadable_eq_ok_iff.mp hload
  have hread : document.Everywhere Document.Placed :=
    Document.everywhere_reread (fun _ _ hsound hplaced hread => hplaced.reread hsound hread)
      hsound hplaced hdocument
  have hloads : document.LoadsAs root := ⟨_, hroot, hdocument⟩
  refine ⟨hloads.everywhere_supported hread
    (Node.coherent_ofOutline hdistinct (Nat.le_refl 1) hroot), fun shown hshown => ?_⟩
  obtain rfl := Except.ok.inj hshown
  refine ⟨?_, hread⟩
  rw [Option.getD_some, Document.type_of_object hdocument hobject]
  exact Option.some_ne_none _

/-- **One call keeps a session shaped**, if what it loads was written by a shaped session. -/
theorem shaped_step {session : Session} (h : session.Shaped) {call : Call}
    (hcall : call.hasDistinctNames = true)
    (hwritten : ∀ v, session.change? call = some (.document v) →
      ∃ written : Document, written.Everywhere Document.Placed ∧
        written.Everywhere (Document.Sound Value.hasDistinctMembers) ∧ v = written.toValue.plain) :
    (session.step call).1.Shaped := by
  have hdistinct : ∀ change, session.change? call = some change →
      change.value.hasDistinctNames = true :=
    fun change hchange => hasDistinctNames_of_change? hcall hchange
  have heffect := effect_step session call
  generalize session.change? call = change at heffect hdistinct hwritten
  generalize session.step call = outcome at heffect ⊢
  cases heffect with
  | taken v hadd hopen =>
    show (session.add v).1.Shaped
    rw [add_of_not_isReached hopen]
    refine shaped_assembled (Node.everywhere_supported_prescribe _
      (Node.everywhere_supported_observe h.tree (hdistinct _ rfl))) rfl ?_
    exact Node.types_observeAll_ne_nil (List.cons_ne_nil v [])
  | dropped hadd hfull => exact h
  | loaded v hadd hform hload =>
    obtain ⟨written, hplaced, hsound, rfl⟩ := hwritten v rfl
    exact shaped_loaded hplaced hsound hload (hdistinct _ rfl)
  | failed error hform hafter =>
    rcases hafter with rfl | rfl
    · exact h
    · exact h.of_alike (alike_remember session)
  | shown form hform => exact h.of_alike (alike_remember session)

/-! ## Whole runs -/

section Runs

variable {settings : Settings} {origin : Session} (hstart : start settings = .ok origin)
  (hversion : settings.version.hasDistinctNames = true) {calls : List Call}
  (hcalls : ∀ call ∈ calls, call.hasDistinctNames = true)
include hstart hversion hcalls

/-- What a session loads from its own texts is the value of a document that it showed. -/
theorem IsOwn.exists_document {call : Call} (hown : IsOwn origin calls call)
    (hindent : call.isLoad = false ∨ ∀ c ∈ origin.options.indent.toList, Json.isSpace c = true)
    {v : Value} (hchange : (origin.run calls).1.change? call = some (.document v)) :
    ∃ earlier written, earlier <+: calls ∧ (origin.run earlier).1.document = .ok written ∧
      v = written.toValue.plain := by
  have hspace := hindent.resolve_left (by simp [isLoad_of_change? hchange])
  have hread : ∀ earlier text, earlier <+: calls → (origin.run earlier).1.text = .ok text →
      parse text = .ok v → ∃ earlier written, earlier <+: calls ∧
        (origin.run earlier).1.document = .ok written ∧ v = written.toValue.plain := by
    intro earlier text hearlier htext hparse
    obtain ⟨written, hwritten, -⟩ := except_bind_eq_ok htext
    have hcalls' := fun call hcall => hcalls call (hearlier.subset hcall)
    rw [parse_of_text hstart hversion hspace hcalls' hwritten htext] at hparse
    exact ⟨earlier, written, hearlier, hwritten, (Except.ok.inj hparse).symm⟩
  cases hown with
  | other h => exact absurd (isLoad_of_change? hchange) (by simp [h])
  | reload =>
    obtain ⟨w, hw, hdocument⟩ := Option.bind_eq_some_iff.mp hchange
    obtain ⟨text, htext, hparse⟩ := except_bind_eq_ok (toOption_eq_some hw)
    obtain rfl : v = w := value_of_documentChange? hdocument
    exact hread calls text (List.prefix_refl calls) htext hparse
  | @load earlier text hearlier htext =>
    obtain ⟨w, hw, hdocument⟩ := Option.bind_eq_some_iff.mp hchange
    obtain rfl : v = w := value_of_documentChange? hdocument
    exact hread earlier text hearlier htext (toOption_eq_some hw)

/-- **A session that loads its own texts is shaped**, at every point of its run. -/
theorem OwnRun.shaped (hrun : origin.OwnRun calls)
    (hindent : (∀ call ∈ calls, call.isLoad = false) ∨
      ∀ c ∈ origin.options.indent.toList, Json.isSpace c = true) :
    ∀ earlier, earlier <+: calls → (origin.run earlier).1.Shaped := by
  induction hrun with
  | nil =>
    intro earlier hearlier
    rw [List.prefix_nil.mp hearlier, start_eq hstart]
    exact shaped_fresh origin.options
  | @snoc calls call hrun hown ih =>
    have hmem : call ∈ calls ++ [call] := List.mem_append_right calls (List.mem_singleton_self call)
    have hbefore : ∀ call' ∈ calls, call'.hasDistinctNames = true :=
      fun call' hcall' => hcalls call' (List.mem_append_left [call] hcall')
    have hshaped := ih hbefore
      (hindent.imp_left fun h call' hcall' => h call' (List.mem_append_left [call] hcall'))
    intro earlier hearlier
    rcases List.prefix_concat_iff.mp hearlier with rfl | hshorter
    · rw [run_append]
      refine shaped_step (hshaped calls (List.prefix_refl calls)) (hcalls call hmem) ?_
      intro v hchange
      obtain ⟨showing, written, hshowing, hwritten, rfl⟩ :=
        hown.exists_document hstart hversion hbefore (hindent.imp_left fun h => h call hmem) hchange
      have hsound := sound_document_of_start hstart hversion
        (fun call' hcall' => hbefore call' (hshowing.subset hcall')) hwritten
      exact ⟨written, ((hshaped showing hshowing).document written hwritten).2, hsound, rfl⟩
    · exact hshaped earlier hshorter

/-- **Every document of such a run is well formed.** Take a session, with any settings, that takes
samples in and loads its own texts, which have to be laid out with white space then. At every
position of the document that is read, there is one list of types that everything agrees with: it is
what the type keyword says, and properties, items, a format and a constant are shown only beside
their types. Only the items of an array can be without a type. Required names are never an empty
list, and the version is that of the root. -/
theorem wellFormed_of_ownRun (hrun : origin.OwnRun calls)
    (hindent : (∀ call ∈ calls, call.isLoad = false) ∨
      ∀ c ∈ origin.options.indent.toList, Json.isSpace c = true)
    {document : Document} (hdocument : (origin.run calls).1.document = .ok document)
    {position : Position} {below : Document} (hbelow : document.sub? position = some below) :
    ∃ types, below.WellFormed types ∧ (types = [] → position.getLast? = some none) ∧
      (below.version ≠ none → position = []) ∧
      Table.get? "required" below.keywords ≠ some (.list []) := by
  have hshaped := hrun.shaped hstart hversion hcalls hindent calls (List.prefix_refl calls)
  obtain ⟨htype, hplaced⟩ := hshaped.document document hdocument
  obtain ⟨types, hwell, hitems, hversion⟩ := hplaced.wellFormed_of_sub? htype hbelow
  exact ⟨types, hwell, hitems, hversion, below.get?_required_ne_nil⟩

end Runs

/-- Samples, their text, and a sample that has another type where the text describes an object. -/
def ownCalls : List Call :=
  innerCalls ++ [.load (.str innerText), .add (.object [("o", .list [])])]

theorem wellFormed_of_ownRun_ownCalls :
    ∃ document below types, (run { options := bareOptions } ownCalls).1.document = .ok document ∧
      document.sub? [some "o"] = some below ∧ below.type = some (.list [.str "array", .str "object"]) ∧
      below.WellFormed types := by
  have hrun : OwnRun { options := bareOptions } ownCalls := by
    have hinner : OwnRun { options := bareOptions } innerCalls :=
      .snoc (.snoc .nil (.other rfl)) (.other rfl)
    exact .snoc (.snoc hinner (.load (List.prefix_refl innerCalls) text_innerCalls)) (.other rfl)
  have hindent : ∀ c ∈ bareOptions.indent.toList, Json.isSpace c = true :=
    fun _ hc => absurd hc List.not_mem_nil
  have hdocument : ∃ document, (run { options := bareOptions } ownCalls).1.document = .ok document ∧
      ∃ below, document.sub? [some "o"] = some below ∧
        below.type = some (.list [.str "array", .str "object"]) := by
    rw [ownCalls, run_append, run_cons, step_load_text parse_innerText rfl]
    exact ⟨_, rfl, _, rfl, rfl⟩
  obtain ⟨document, hdocument, below, hbelow, htype⟩ := hdocument
  obtain ⟨types, hwell, -⟩ := wellFormed_of_ownRun start_bareOptions (by decide) (by decide) hrun
    (.inr hindent) hdocument hbelow
  exact ⟨document, below, types, hdocument, hbelow, htype, hwell⟩

/-- An indentation that looks like a member between the parts of an object. -/
def memberIndent : String :=
  " \"const\": 5,\n "

def memberSession : Session :=
  { options := ⟨[], .unlimited, ⟨false, []⟩, none, memberIndent⟩ }

def memberText : String :=
  "\x7b\n \"const\": 5,\n \"type\": \"object\"\n\x7d"

theorem parse_memberText :
    parse memberText = .ok (.object [("const", .int 5), ("type", .str "object")]) := by
  have hindent : ∀ c ∈ " ".toList, Json.isSpace c = true := List.forall_mem_singleton.mpr rfl
  exact parse_of_print hindent (by decide) rfl

/-- A text is read with all that stands between its parts: here, an object with an integer as its
constant. -/
theorem not_wellFormed_memberIndent :
    start { knownFormats := .bool false, version := .null, indent := .str memberIndent } =
        .ok memberSession ∧
      memberSession.OwnRun [.add (.object []), .reload] ∧
      ∃ document, (memberSession.run [.add (.object []), .reload]).1.document = .ok document ∧
        ¬∃ types, document.WellFormed types := by
  have hrun : memberSession.OwnRun [.add (.object []), .reload] :=
    .snoc (.snoc .nil (.other rfl)) .reload
  have htext : (memberSession.step (.add (.object []))).1.text = .ok memberText := rfl
  refine ⟨rfl, hrun, { type := some (.str "object"), constant := some (.int 5) }, ?_, ?_⟩
  · rw [run_cons, run_cons, step_reload_of_parse htext parse_memberText]
    rfl
  · rintro ⟨types, hwell⟩
    have hinteger := hwell.constant (.int 5) rfl
    rw [← hwell.loadedTypes_eq] at hinteger
    exact absurd hinteger (by decide)

end Session

end SampleSchema
