import SampleSchema.Proofs.HiddenFields
import SampleSchema.Proofs.Shape
/-!
# Runs that differ in hidden fields

A field of the root that is prescribed to have a type without parts hides its values: whatever they
are, two runs that differ in nothing else give the same answers. This takes both runs at once. A
call of the one goes along with a call of the other, and what the sessions have taken in stays
alike.

* `Call.AlikeBut` relates the calls, and `Recent.AlikeBut` what is left of two histories.
* `Twins` is the relation of the two sessions, with what is left of their histories.
* `Twins.document` says that their documents are written alike, and `Twins.answer` that calls which
  go along are answered alike.
* `Twins.step` is the step and `Twins.run` the run; `written_run_of_alikeBut` starts from two fresh
  sessions.
-/

namespace SampleSchema

namespace Session

/-! ## What goes along -/

/-- The same call, or two that bring samples which are alike but for hidden fields. -/
inductive Call.AlikeBut (hidden : String → Prop) : Call → Call → Prop where
  | same (call : Call) : AlikeBut hidden call call
  | samples {call other : Call} {v w : Value} (hv : call.reading? = some (.ok v))
      (hw : other.reading? = some (.ok w)) (h : v.AlikeBut hidden w) : AlikeBut hidden call other

/-- Calls that go along bring samples that are alike, or such that cannot be read for one reason, or
they bring none and are the same. -/
theorem Call.AlikeBut.cases {hidden : String → Prop} {call other : Call}
    (h : call.AlikeBut hidden other) :
    (∃ v w, call.reading? = some (.ok v) ∧ other.reading? = some (.ok w) ∧
      v.AlikeBut hidden w) ∨
    (∃ error, call.reading? = some (.error error) ∧ other.reading? = some (.error error)) ∨
    (other = call ∧ call.reading? = none) := by
  cases h with
  | samples hv hw h => exact .inl ⟨_, _, hv, hw, h⟩
  | same =>
    cases hreading : call.reading? with
    | none => exact .inr (.inr ⟨rfl, rfl⟩)
    | some result =>
      cases result with
      | error error => exact .inr (.inl ⟨error, rfl, rfl⟩)
      | ok v => exact .inl ⟨v, v, rfl, rfl, .same v⟩

/-- The same document, or two samples that are alike but for hidden fields. -/
inductive Change.AlikeBut (hidden : String → Prop) : Change → Change → Prop where
  | sample {v w : Value} (h : v.AlikeBut hidden w) : AlikeBut hidden (.sample v) (.sample w)
  | document (v : Value) : AlikeBut hidden (.document v) (.document v)

theorem Change.rel_refl {hidden : String → Prop} (change? : Option Change) :
    Option.Rel (Change.AlikeBut hidden) change? change? := by
  cases change? with
  | none => exact .none
  | some change =>
    cases change with
    | sample v => exact .some (.sample (.same v))
    | document v => exact .some (.document v)

/-- The same loaded document, and samples that are alike but for hidden fields. -/
structure Recent.AlikeBut (hidden : String → Prop) (recent other : Recent) : Prop where
  loaded : recent.loaded = other.loaded
  samples : List.Forall₂ (Value.AlikeBut hidden) recent.samples other.samples

namespace Recent

variable {hidden : String → Prop} {recent other : Recent}

theorem AlikeBut.count_eq (h : recent.AlikeBut hidden other) : recent.count = other.count := by
  rw [count, count, h.loaded, h.samples.length_eq]

theorem AlikeBut.after (h : recent.AlikeBut hidden other) {change change' : Change}
    (hchange : change.AlikeBut hidden change') :
    (recent.after change).AlikeBut hidden (other.after change') := by
  cases hchange with
  | sample hsample =>
    exact ⟨h.loaded, List.rel_append h.samples (.cons hsample .nil)⟩
  | document v => exact ⟨rfl, .nil⟩

/-- The properties of the tree that samples are observed in have distinct names. -/
theorem nodup_names_start (h : recent.Sound Value.hasDistinctMembers) :
    (Table.names recent.start.properties).Nodup := by
  unfold start
  cases hloaded : recent.loaded with
  | none => exact .nil
  | some v =>
    obtain ⟨hdistinct, ⟨root, document⟩, hload⟩ := h.loaded v hloaded
    obtain ⟨-, hroot, -⟩ := loadable_eq_ok_iff.mp hload
    dsimp only
    rw [hroot]
    exact (Node.coherent_ofOutline hdistinct (Nat.le_refl 1) hroot).here.propertyNames

/-- The documents that are made of what is left are written alike. -/
theorem AlikeBut.document {options : Options} (hexamples : options.observer.keepsExamples = false)
    (h : recent.AlikeBut options.Hides other) (hrecent : recent.Sound Value.hasDistinctMembers)
    (hother : other.Sound Value.hasDistinctMembers) :
    (recent.document options).map Document.toValue =
      (other.document options).map Document.toValue := by
  have hnames := nodup_names_start hrecent
  obtain ⟨loaded, vs⟩ := recent
  obtain ⟨loaded', ws⟩ := other
  obtain ⟨rfl, hsamples⟩ := h
  by_cases hvs : vs = []
  · -- nothing was taken in behind the load
    obtain rfl := hvs
    obtain rfl : ws = [] := List.forall₂_nil_left_iff.mp hsamples
    rfl
  · have hws : ws ≠ [] := by
      rintro rfl
      exact hvs (List.forall₂_nil_right_iff.mp hsamples)
    rw [document_of_ne_nil options _ hvs, document_of_ne_nil options _ hws,
      tree_of_ne_nil options _ hvs, tree_of_ne_nil options _ hws]
    exact congrArg Except.ok
      (toValue_assemble_of_alikeBut hexamples hsamples hrecent.samples hother.samples hnames _)

end Recent

/-! ## Twins -/

theorem isSound_of_change? {session : Session} {call : Call} {change : Change}
    (hcall : call.hasDistinctNames = true) (h : session.change? call = some change) :
    change.IsSound Value.hasDistinctMembers := by
  have hvalue := hasDistinctNames_of_change? hcall h
  cases change with
  | sample v => exact hvalue
  | document v => exact ⟨hvalue, exists_loadable_of_change? h⟩

/-- Two sessions that have taken in the same but for the values of hidden fields. -/
structure Twins (options : Options) (recent other : Recent) (a b : Session) : Prop where
  left : Follows options recent a
  right : Follows options other b
  leftSound : recent.Sound Value.hasDistinctMembers
  rightSound : other.Sound Value.hasDistinctMembers
  alike : recent.AlikeBut options.Hides other

theorem twins_fresh (options : Options) : Twins options {} {} { options } { options } :=
  ⟨follows_fresh options, follows_fresh options, ⟨nofun, nofun⟩, ⟨nofun, nofun⟩, ⟨rfl, .nil⟩⟩

/-- An answer, with documents as they are written. -/
def written (answer : Except Error (Answer × List Notice)) : Except Error (Value × List Notice) :=
  answer.map fun told =>
    (match told.1 with
      | .done => .null
      | .text text => .str text
      | .document document => document.toValue, told.2)

theorem toText_congr {document other : Document} (h : document.toValue = other.toValue)
    (indent : String) : document.toText indent = other.toText indent := by
  rw [Document.toText, Document.toText, h]

/-- A call that brings no sample makes the same change in sessions that show the same text. -/
theorem change?_congr {call : Call} (hreading : call.reading? = none) {session other : Session}
    (htext : session.text = other.text) : session.change? call = other.change? call := by
  cases call with
  | reload => rw [change?, change?, htext]
  | load v | loadDocument document | readDocument | readText | readLine => rfl
  | _ => exact nomatch hreading

/-- What a load tells does not depend on the session. -/
theorem answer_change_loadValue (after after' session other : Session)
    (result : Except Error Value) :
    (after.change (do session.loadValue (← result))).2 =
      (after'.change (do other.loadValue (← result))).2 := by
  cases result with
  | error error => rfl
  | ok v =>
    show (after.change (session.loadValue v)).2 = (after'.change (other.loadValue v)).2
    unfold loadValue
    cases loadable v <;> rfl

namespace Twins

variable {options : Options} {recent other : Recent} {a b : Session}
  (h : Twins options recent other a b)
include h

theorem options_eq : a.options = b.options :=
  h.left.options_eq.trans h.right.options_eq.symm

theorem count_eq : a.count = b.count := by
  rw [h.left.count_eq, h.right.count_eq, h.alike.count_eq]

theorem notices_eq (v w : Value) : (a.add v).2 = (b.add w).2 := by
  unfold add
  dsimp only
  rw [h.options_eq, h.count_eq]
  split <;> rfl

theorem sampleChange? {v w : Value} (hsample : v.AlikeBut options.Hides w) :
    Option.Rel (Change.AlikeBut options.Hides) (a.sampleChange? v) (b.sampleChange? w) := by
  unfold Session.sampleChange?
  rw [h.options_eq, h.count_eq]
  split
  · exact .none
  · exact .some (.sample hsample)

variable (hexamples : options.observer.keepsExamples = false)
include hexamples

theorem document :
    (∃ error, a.document = .error error ∧ b.document = .error error) ∨
      ∃ shown shown', a.document = .ok shown ∧ b.document = .ok shown' ∧
        shown.toValue = shown'.toValue := by
  have hdocument := h.alike.document hexamples h.leftSound h.rightSound
  rw [← h.left.document_eq, ← h.right.document_eq] at hdocument
  cases ha : a.document with
  | error error =>
    cases hb : b.document with
    | error error' =>
      rw [ha, hb] at hdocument
      obtain rfl := Except.error.inj hdocument
      exact .inl ⟨error, rfl, rfl⟩
    | ok shown' =>
      rw [ha, hb] at hdocument
      exact nomatch hdocument
  | ok shown =>
    cases hb : b.document with
    | error error' =>
      rw [ha, hb] at hdocument
      exact nomatch hdocument
    | ok shown' =>
      rw [ha, hb] at hdocument
      exact .inr ⟨shown, shown', rfl, rfl, Except.ok.inj hdocument⟩

theorem text_eq : a.text = b.text := by
  rw [Session.text, Session.text, h.options_eq]
  rcases h.document hexamples with ⟨error, ha, hb⟩ | ⟨shown, shown', ha, hb, hshown⟩
  · rw [ha, hb]
  · rw [ha, hb]
    exact toText_congr hshown b.options.indent

/-! ### Calls that go along -/

theorem change? {call call' : Call} (hcall : call.AlikeBut options.Hides call') :
    Option.Rel (Change.AlikeBut options.Hides) (a.change? call) (b.change? call') := by
  rcases hcall.cases with ⟨v, w, hv, hw, hsample⟩ | ⟨error, hleft, hright⟩ | ⟨rfl, hreading⟩
  · rw [(step_of_reading? hv a).2, (step_of_reading? hw b).2]
    exact h.sampleChange? hsample
  · rw [(step_of_reading? hleft a).2, (step_of_reading? hright b).2]
    exact .none
  · rw [change?_congr hreading (h.text_eq hexamples)]
    exact Change.rel_refl _

/-- A read shows two documents that are written alike, or none for one reason. -/
theorem answer_read {call : Call} {form : Document → Except Error Answer}
    (hform : call.form? options.indent = some form) :
    written (a.step call).2 = written (b.step call).2 := by
  rw [step_of_form (by rw [h.left.options_eq]; exact hform),
    step_of_form (by rw [h.right.options_eq]; exact hform)]
  rcases h.document hexamples with ⟨error, ha, hb⟩ | ⟨shown, shown', ha, hb, hshown⟩
  · rw [ha, hb]
  · rw [ha, hb, except_ok_bind, except_ok_bind]
    have htext := toText_congr hshown options.indent
    cases call with
    | readDocument =>
      obtain rfl := Option.some.inj hform
      show Except.ok (shown.toValue, []) = Except.ok (shown'.toValue, [])
      rw [hshown]
    | readText =>
      obtain rfl := Option.some.inj hform
      dsimp only
      rw [htext]
    | readLine =>
      obtain rfl := Option.some.inj hform
      dsimp only
      rw [htext]
    | _ => exact nomatch hform

/-- Calls that go along are answered alike. -/
theorem answer {call call' : Call} (hcall : call.AlikeBut options.Hides call') :
    written (a.step call).2 = written (b.step call').2 := by
  rcases hcall.cases with ⟨v, w, hv, hw, hsample⟩ | ⟨error, hleft, hright⟩ | ⟨rfl, hreading⟩
  · rw [(step_of_reading? hv a).1, (step_of_reading? hw b).1]
    show written (.ok (.done, (a.add v).2)) = written (.ok (.done, (b.add w).2))
    rw [h.notices_eq v w]
  · rw [(step_of_reading? hleft a).1, (step_of_reading? hright b).1]
    rfl
  · cases call' with
    | load v =>
      rw [step_load_eq, step_load_eq]
      exact congrArg written (answer_change_loadValue a b a b (given v))
    | loadDocument document =>
      exact congrArg written (answer_change_loadValue a b a b (.ok document.toValue))
    | reload =>
      rw [step_reload_eq, step_reload_eq, h.text_eq hexamples]
      exact congrArg written (answer_change_loadValue _ _ a b _)
    | readDocument => exact h.answer_read hexamples rfl
    | readText => exact h.answer_read hexamples rfl
    | readLine => exact h.answer_read hexamples rfl
    | _ => exact nomatch hreading

/-- Calls that go along leave twins behind. -/
theorem step {call call' : Call} (hcall : call.AlikeBut options.Hides call')
    (hd : call.hasDistinctNames = true) (hd' : call'.hasDistinctNames = true) :
    Twins options ((a.change? call).toList.foldl Recent.after recent)
      ((b.change? call').toList.foldl Recent.after other) (a.step call).1 (b.step call').1 := by
  have hchange := h.change? hexamples hcall
  have hleft := follows_step h.left call
  have hright := follows_step h.right call'
  have hsound : ∀ change, a.change? call = some change → change.IsSound Value.hasDistinctMembers :=
    fun change hsome => isSound_of_change? hd hsome
  have hsound' : ∀ change, b.change? call' = some change →
      change.IsSound Value.hasDistinctMembers :=
    fun change hsome => isSound_of_change? hd' hsome
  generalize a.change? call = change at *
  generalize b.change? call' = change' at *
  cases hchange with
  | none => exact ⟨hleft, hright, h.leftSound, h.rightSound, h.alike⟩
  | some hboth =>
    exact ⟨hleft, hright, Recent.sound_after h.leftSound (hsound _ rfl),
      Recent.sound_after h.rightSound (hsound' _ rfl), h.alike.after hboth⟩

/-- **Twins stay twins**, and answer alike all along. -/
theorem run {calls others : List Call}
    (hcalls : List.Forall₂ (Call.AlikeBut options.Hides) calls others)
    (hd : ∀ call ∈ calls, call.hasDistinctNames = true)
    (hd' : ∀ call ∈ others, call.hasDistinctNames = true) :
    (a.run calls).2.map written = (b.run others).2.map written ∧
      Twins options ((a.changes calls).foldl Recent.after recent)
        ((b.changes others).foldl Recent.after other) (a.run calls).1 (b.run others).1 := by
  induction hcalls generalizing recent other a b with
  | nil => exact ⟨rfl, h⟩
  | cons hfirst _ ih =>
    obtain ⟨hhere, hd⟩ := List.forall_mem_cons.mp hd
    obtain ⟨hhere', hd'⟩ := List.forall_mem_cons.mp hd'
    have hanswer := h.answer hexamples hfirst
    obtain ⟨hanswers, htwins⟩ := ih (h.step hexamples hfirst hhere hhere') hd hd'
    rw [run_cons, run_cons, changes, changes, List.foldl_append, List.foldl_append, List.map_cons,
      List.map_cons, hanswer, hanswers]
    exact ⟨rfl, htwins⟩

end Twins

/-! ## Runs -/

theorem prescribedAt_of_inner (predefined : List (String × String)) (first step : Option String)
    (rest : Position) (node : Node) :
    prescribedAt predefined (first :: step :: rest) node = node := by
  cases first <;> rfl

/-- **Hidden fields hide their values.** Let two fresh sessions with the same options, which keep no
examples, be given calls that go along: the same calls, or samples that are the same, or objects
with the same members but for hidden fields, of which one has a value that is not null exactly if
the other has. Then all calls are answered alike, with documents as they are written, and as many
samples count. Nothing is hidden further down: behind a sample, what is shown below the fields of
the root describes the values that were observed there. -/
theorem written_run_of_alikeBut (options : Options)
    (hexamples : options.observer.keepsExamples = false) {calls others : List Call}
    (hcalls : ∀ call ∈ calls, call.hasDistinctNames = true)
    (hothers : ∀ call ∈ others, call.hasDistinctNames = true)
    (halike : List.Forall₂ (Call.AlikeBut options.Hides) calls others) :
    let after := (run { options } calls).1
    let recent := Recent.ofHistory (changes { options } calls)
    (run { options } calls).2.map written = (run { options } others).2.map written ∧
    after.count = (run { options } others).1.count ∧
    ∀ document, after.document = .ok document → recent.samples ≠ [] →
      ∀ first step rest below, document.sub? (first :: step :: rest) = some below →
        ∃ node, (recent.start.observeAll options.observer recent.samples).sub?
            (first :: step :: rest) = some node ∧
          below = Document.assemble none node := by
  intro after recent
  obtain ⟨hanswers, htwins⟩ := (twins_fresh options).run hexamples halike hcalls hothers
  refine ⟨hanswers, htwins.count_eq, ?_⟩
  intro document hdocument hsamples first step rest below hbelow
  rw [(follows_ofHistory options calls).document_eq,
    Recent.document_of_ne_nil options _ hsamples] at hdocument
  rw [← Except.ok.inj hdocument, Recent.tree_of_ne_nil options _ hsamples] at hbelow
  obtain ⟨version, under, hunder, hshown⟩ := Document.exists_of_sub?_assemble hbelow
  have hversion := Document.version_of_sub?_assemble (List.cons_ne_nil _ _) hbelow
  rw [hshown, Document.version_assemble] at hversion
  rw [sub?_prescribe, Option.map_eq_some_iff] at hunder
  obtain ⟨node, hnode, rfl⟩ := hunder
  rw [prescribedAt_of_inner, hversion] at hshown
  exact ⟨node, hnode, hshown⟩

/-- Options that prescribe a text for one field. -/
def secretOptions : Options :=
  ⟨[("secret", "string")], .unlimited, ⟨false, Detector.known⟩, none, ""⟩

/-- A sample with this value in the prescribed field, and a field of that name further down. -/
def secretSample (secret : Value) : Value :=
  .object [("secret", secret), ("inner", .object [("secret", .int 1)])]

theorem written_run_secretSample :
    let calls : List Call := [.load optionalDocument, .add (secretSample (.str "x")), .readDocument]
    let others : List Call :=
      [.load optionalDocument, .add (secretSample (.list [.object []])), .readDocument]
    (run { options := secretOptions } calls).2.map written =
      (run { options := secretOptions } others).2.map written := by
  have hsample : (secretSample (.str "x")).AlikeBut secretOptions.Hides
      (secretSample (.list [.object []])) := by
    refine .object (fun name hshown => ?_) fun name hhidden => ?_
    · have hname : "secret" ≠ name := by
        rintro rfl
        exact hshown ⟨"string", by decide, rfl⟩
      exact (if_neg hname).trans (if_neg hname).symm
    · obtain ⟨type, -, hget⟩ := hhidden
      obtain ⟨rfl, -⟩ := Prod.mk.inj (List.mem_singleton.mp (Table.mem_of_get?_eq_some hget))
      exact iff_of_true ⟨_, _, rfl, rfl, nofun⟩ ⟨_, _, rfl, rfl, nofun⟩
  exact (written_run_of_alikeBut secretOptions rfl (by decide) (by decide)
    (.cons (.same _) (.cons (.samples rfl rfl hsample) (.cons (.same _) .nil)))).1

end Session

end SampleSchema
