import SampleSchema.Proofs.Failure
import SampleSchema.Proofs.Ingestion
/-!
# The history of a session

A session remembers the document that was read last, and a load puts a document there that the
tree would not be described by. This module says what can be relied on nevertheless: the answers
of a session are a function of the changes that it underwent, and of these only the last load
and the samples behind it count.

* `Change` is a sample that was taken in, or a document that was loaded; `change?` is the change
  that a call makes. Reads, calls that fail and samples beyond the cap make none.
* `effect_step` says once what a step can do. Everything below goes through it.
* `Recent` is what is left of a history, and `Recent.document` the document made from it, with no
  session involved.
* `Alike` sessions differ at most in what they remember, and no call tells them apart.
-/

namespace SampleSchema

namespace Session

/-! ## Changes -/

/-- A change of what a session has taken in. -/
inductive Change where
  | sample (v : Value)
  | document (v : Value)

/-- A sample is taken in unless the cap was reached before. -/
def sampleChange? (session : Session) (v : Value) : Option Change :=
  if session.options.cap.isReached session.count then none else some (.sample v)

/-- A document is taken in if it can be loaded. -/
def documentChange? (v : Value) : Option Change :=
  match loadable v with
  | .ok _ => some (.document v)
  | .error _ => none

/-- The document that is given as a value or as a text. -/
def given : Value → Except Error Value
  | .str text => parse text
  | .bytes octets => parseOctets octets
  | v => .ok v

theorem load_eq (session : Session) (v : Value) :
    session.load v = (do session.loadValue (← given v)) := by
  cases v <;> rfl

/-- The change that a call makes, if it makes one. -/
def change? (session : Session) : Call → Option Change
  | .add v => session.sampleChange? v
  | .addText text => (parse text).toOption.bind session.sampleChange?
  | .addOctets octets => (parseOctets octets).toOption.bind session.sampleChange?
  | .load v => (given v).toOption.bind documentChange?
  | .loadDocument document => documentChange? document.toValue
  | .reload => (session.text.bind parse).toOption.bind documentChange?
  | .readDocument | .readText | .readLine => none

/-- The changes that a sequence of calls makes, in order. -/
def changes (session : Session) : List Call → List Change
  | [] => []
  | call :: rest => (session.change? call).toList ++ changes (session.step call).1 rest

/-- How a read shows the document. Other calls do not show it. -/
def Call.form? (indent : String) : Call → Option (Document → Except Error Answer)
  | .readDocument => some fun document => .ok (.document document)
  | .readText => some fun document => do return .text (← document.toText indent)
  | .readLine => some fun document => do return .text ((← document.toText indent) ++ "\n")
  | _ => none

/-- Whether a call brings a sample. -/
def Call.isAdd : Call → Bool
  | .add _ | .addText _ | .addOctets _ => true
  | _ => false

/-- Whether a call brings a document. -/
def Call.isLoad : Call → Bool
  | .load _ | .loadDocument _ | .reload => true
  | _ => false

/-- What a call that brings a sample reads as the sample. -/
def Call.reading? : Call → Option (Except Error Value)
  | .add v => some (.ok v)
  | .addText text => some (parse text)
  | .addOctets octets => some (parseOctets octets)
  | _ => none

theorem Call.isSome_reading? (call : Call) : call.reading?.isSome = call.isAdd := by
  cases call <;> rfl

/-- A sample is read without a look at the session. -/
theorem step_of_reading? {call : Call} {result : Except Error Value}
    (h : call.reading? = some result) (session : Session) :
    session.step call = session.change (do return session.add (← result)) ∧
      session.change? call = result.toOption.bind session.sampleChange? := by
  cases call with
  | add v =>
    obtain rfl := Option.some.inj h
    exact ⟨rfl, rfl⟩
  | addText text =>
    obtain rfl := Option.some.inj h
    exact ⟨rfl, rfl⟩
  | addOctets octets =>
    obtain rfl := Option.some.inj h
    exact ⟨rfl, rfl⟩
  | _ => exact nomatch h

/-- A call without effect: a read, a call that fails, or a sample beyond the cap. -/
def IsIdle (session : Session) (call : Call) : Prop :=
  (call.form? session.options.indent).isSome ∨
    (∃ error, (session.step call).2 = .error error) ∨
    (call.isAdd ∧ session.options.cap.isReached session.count)

/-- A value with the type object is loaded as a node and as a document. -/
theorem loadable_of_object {v : Value}
    (hobject : ∃ members, v = .object members ∧ Value.member "type" members = .str "object") :
    loadable v = (do
      let root ← Node.ofOutline 1 (.ofValue v)
      let document ← Document.ofValue v
      return (root, document)) := by
  obtain ⟨members, rfl, htype⟩ := hobject
  unfold loadable
  dsimp only
  rw [htype]
  rfl

/-- Any other value is refused for its type, without a look at its parts. -/
theorem exists_loadable_eq_error {v : Value}
    (hother : ¬ ∃ members, v = .object members ∧ Value.member "type" members = .str "object") :
    ∃ type, loadable v = .error (.rootNotObject type) := by
  unfold loadable
  dsimp only
  split
  · -- the type was found, so there are members that it was found among
    rename_i htype
    split at htype
    · rename_i members
      exact absurd ⟨members, rfl, htype⟩ hother
    · exact nomatch htype
  · exact ⟨_, rfl⟩

theorem loadable_eq_ok_iff {v : Value} {root : Node} {document : Document} :
    loadable v = .ok (root, document) ↔
      (∃ members, v = .object members ∧ Value.member "type" members = .str "object") ∧
        Node.ofOutline 1 (.ofValue v) = .ok root ∧ Document.ofValue v = .ok document := by
  constructor
  · intro h
    have hobject : ∃ members, v = .object members ∧
        Value.member "type" members = .str "object" := by
      by_contra hother
      obtain ⟨type, hrefused⟩ := exists_loadable_eq_error hother
      rw [hrefused] at h
      exact nomatch h
    rw [loadable_of_object hobject] at h
    obtain ⟨root', hroot, h⟩ := except_bind_eq_ok h
    obtain ⟨document', hdocument, h⟩ := except_bind_eq_ok h
    obtain ⟨rfl, rfl⟩ := Prod.mk.inj (Except.ok.inj h)
    exact ⟨hobject, hroot, hdocument⟩
  · rintro ⟨hobject, hroot, hdocument⟩
    rw [loadable_of_object hobject, hroot, hdocument]
    rfl

/-! ## What a step can do -/

/-- The change that a call makes, and what the call comes to: a sample that counts or does not, a
document that is loaded, a failure, or a read. -/
inductive Effect (session : Session) (call : Call) : Option Change → Outcome → Prop where
  | taken (v : Value) (hadd : call.isAdd = true)
      (hopen : session.options.cap.isReached session.count = false) :
      Effect session call (some (.sample v)) (session.change (.ok (session.add v)))
  | dropped (hadd : call.isAdd = true)
      (hfull : session.options.cap.isReached session.count = true) :
      Effect session call none (session, .ok (.done, []))
  | loaded (v : Value) {root : Node} {document : Document}
      (hadd : call.isAdd = false) (hform : call.form? session.options.indent = none)
      (hload : loadable v = .ok (root, document)) :
      Effect session call (some (.document v))
        ({ session with root, count := 1, current := some document },
          .ok (.done, [.documentLoaded root.properties.length]))
  | failed (error : Error) {after : Session} (hform : call.form? session.options.indent = none)
      (hafter : after = session ∨ after = session.remember) :
      Effect session call none (after, .error error)
  | shown (form : Document → Except Error Answer)
      (hform : call.form? session.options.indent = some form) :
      Effect session call none (session.read form)

section Effect

variable {session : Session} {call : Call}

theorem effect_sample (hadd : call.isAdd = true) (v : Value) :
    Effect session call (session.sampleChange? v) (session.change (.ok (session.add v))) := by
  unfold sampleChange?
  split
  · rename_i hfull
    rw [add_of_isReached hfull]
    exact .dropped hadd hfull
  · rename_i hopen
    exact .taken v hadd (Bool.not_eq_true _ |>.mp hopen)

theorem effect_text (hadd : call.isAdd = true) (hform : call.form? session.options.indent = none)
    (result : Except Error Value) :
    Effect session call (result.toOption.bind session.sampleChange?)
      (session.change (do return session.add (← result))) := by
  cases result with
  | error error => exact .failed error hform (.inl rfl)
  | ok v => exact effect_sample hadd v

variable {after : Session} (hadd : call.isAdd = false)
  (hform : call.form? session.options.indent = none)
  (hafter : after = session ∨ after = session.remember)
include hadd hform hafter

theorem effect_document (v : Value) :
    Effect session call (documentChange? v) (after.change (session.loadValue v)) := by
  unfold documentChange?
  cases hload : loadable v with
  | error error =>
    have hvalue : session.loadValue v = .error error := by
      rw [loadValue, hload]
      rfl
    rw [hvalue]
    exact .failed error hform hafter
  | ok result =>
    obtain ⟨root, document⟩ := result
    have hvalue : session.loadValue v =
        .ok ({ session with root, count := 1, current := some document },
          [.documentLoaded root.properties.length]) := by
      rw [loadValue, hload]
      rfl
    rw [hvalue]
    exact .loaded v hadd hform hload

theorem effect_documentText (result : Except Error Value) :
    Effect session call (result.toOption.bind documentChange?)
      (after.change (do session.loadValue (← result))) := by
  cases result with
  | error error => exact .failed error hform hafter
  | ok v => exact effect_document hadd hform hafter v

end Effect

theorem step_load_eq (session : Session) (v : Value) :
    session.step (.load v) = session.change (do session.loadValue (← given v)) := by
  rw [step, load_eq]

theorem step_reload_eq (session : Session) :
    session.step .reload =
      session.remember.change (do session.loadValue (← session.text.bind parse)) := by
  rw [step]
  cases session.text <;> rfl

/-- Every call makes its change, and comes to what the change allows. -/
theorem effect_step (session : Session) (call : Call) :
    Effect session call (session.change? call) (session.step call) := by
  cases call with
  | add v => exact effect_sample rfl v
  | addText text => exact effect_text rfl rfl (parse text)
  | addOctets octets => exact effect_text rfl rfl (parseOctets octets)
  | load v =>
    rw [step_load_eq]
    exact effect_documentText rfl rfl (.inl rfl) (given v)
  | loadDocument document => exact effect_document rfl rfl (.inl rfl) document.toValue
  | reload =>
    rw [step_reload_eq]
    exact effect_documentText rfl rfl (.inr rfl) _
  | readDocument => exact .shown _ rfl
  | readText => exact .shown _ rfl
  | readLine => exact .shown _ rfl

/-- The calls that make no change are the idle ones. -/
theorem change?_eq_none_iff {session : Session} {call : Call} :
    session.change? call = none ↔ session.IsIdle call := by
  have hread : call.isAdd = true → call.form? session.options.indent = none := by
    cases call <;> simp [Call.isAdd, Call.form?]
  unfold IsIdle
  have heffect := effect_step session call
  generalize session.change? call = change at heffect ⊢
  generalize session.step call = outcome at heffect ⊢
  cases heffect with
  | taken v hadd hopen => simp [hread hadd, hopen, change]
  | dropped hadd hfull => simp [hadd, hfull]
  | loaded v hadd hform hload => simp [hadd, hform]
  | failed error hform hafter => simp
  | shown form hform => simp [hform]

/-! ## Sessions that no call tells apart -/

/-- Two sessions that have taken in the same, and read the same. One may remember what the other
would have to make anew. -/
structure Alike (a b : Session) : Prop where
  options : a.options = b.options
  root : a.root = b.root
  count : a.count = b.count
  document : a.document = b.document

theorem Alike.refl (session : Session) : session.Alike session := ⟨rfl, rfl, rfl, rfl⟩

theorem Alike.trans {a b c : Session} (hab : a.Alike b) (hbc : b.Alike c) : a.Alike c :=
  ⟨hab.options.trans hbc.options, hab.root.trans hbc.root, hab.count.trans hbc.count,
    hab.document.trans hbc.document⟩

theorem Alike.symm {a b : Session} (hab : a.Alike b) : b.Alike a :=
  ⟨hab.options.symm, hab.root.symm, hab.count.symm, hab.document.symm⟩

theorem Alike.text {a b : Session} (hab : a.Alike b) : a.text = b.text := by
  rw [Session.text, Session.text, hab.document, hab.options]

/-- Remembering is invisible: what is remembered is what would be read anyway. -/
theorem alike_remember (session : Session) : session.remember.Alike session := by
  unfold remember
  split
  · rename_i document hdocument
    refine ⟨rfl, rfl, rfl, ?_⟩
    -- there is a document, so something was taken in
    have hcount : session.count ≠ 0 := by
      intro hzero
      rw [Session.document, if_pos hzero] at hdocument
      exact nomatch hdocument
    rw [hdocument, Session.document, if_neg hcount]
    rfl
  · exact .refl session

theorem alike_add {a b : Session} (hab : a.Alike b) (v : Value) :
    (a.add v).1.Alike (b.add v).1 ∧ (a.add v).2 = (b.add v).2 := by
  obtain ⟨hoptions, hroot, hcount, hdocument⟩ := hab
  unfold add
  dsimp only
  rw [hoptions, hcount, hroot]
  split
  · exact ⟨⟨hoptions, hroot, hcount, hdocument⟩, rfl⟩
  · -- a sample that counts leaves nothing remembered on either side
    exact ⟨.refl _, rfl⟩

/-- Two changes that are refused for one reason, or tell the same and lead to sessions alike. -/
inductive AlikeChange : Except Error (Session × List Notice) →
    Except Error (Session × List Notice) → Prop where
  | refused (error : Error) : AlikeChange (.error error) (.error error)
  | made {after after' : Session} (notices : List Notice) (h : after.Alike after') :
      AlikeChange (.ok (after, notices)) (.ok (after', notices))

theorem alike_change {a b : Session} (hab : a.Alike b) {p q : Except Error (Session × List Notice)}
    (h : AlikeChange p q) :
    (a.change p).2 = (b.change q).2 ∧ (a.change p).1.Alike (b.change q).1 := by
  cases h with
  | refused error => exact ⟨rfl, hab⟩
  | made notices hafter => exact ⟨rfl, hafter⟩

theorem alikeChange_add {a b : Session} (hab : a.Alike b) (result : Except Error Value) :
    AlikeChange (do return a.add (← result)) (do return b.add (← result)) := by
  cases result with
  | error error => exact .refused error
  | ok v =>
    obtain ⟨hafter, hnotices⟩ := alike_add hab v
    show AlikeChange (.ok ((a.add v).1, (a.add v).2)) (.ok ((b.add v).1, (b.add v).2))
    rw [hnotices]
    exact .made _ hafter

theorem alikeChange_loadValue {a b : Session} (hab : a.Alike b) (result : Except Error Value) :
    AlikeChange (do a.loadValue (← result)) (do b.loadValue (← result)) := by
  cases result with
  | error error => exact .refused error
  | ok v =>
    show AlikeChange (a.loadValue v) (b.loadValue v)
    rw [loadValue, loadValue]
    cases loadable v with
    | error error => exact .refused error
    | ok loaded =>
      -- a load replaces all that the sessions may differ in
      refine .made _ ⟨hab.options, rfl, rfl, ?_⟩
      rfl

theorem alike_read {a b : Session} (hab : a.Alike b) (form : Document → Except Error Answer) :
    (a.read form).2 = (b.read form).2 ∧ (a.read form).1.Alike (b.read form).1 := by
  constructor
  · show (do return (← form (← a.document), [])) = (do return (← form (← b.document), []))
    rw [hab.document]
  · exact ((alike_remember a).trans hab).trans (alike_remember b).symm

/-- Sessions alike give one answer, and stay alike. -/
theorem alike_step {a b : Session} (hab : a.Alike b) (call : Call) :
    (a.step call).2 = (b.step call).2 ∧ (a.step call).1.Alike (b.step call).1 := by
  cases call with
  | add v => exact alike_change hab (alikeChange_add hab (.ok v))
  | addText text => exact alike_change hab (alikeChange_add hab (parse text))
  | addOctets octets => exact alike_change hab (alikeChange_add hab (parseOctets octets))
  | load v =>
    rw [step_load_eq, step_load_eq]
    exact alike_change hab (alikeChange_loadValue hab (given v))
  | loadDocument document =>
    exact alike_change hab (alikeChange_loadValue hab (.ok document.toValue))
  | reload =>
    rw [step_reload_eq, step_reload_eq, hab.text]
    have hremembered := ((alike_remember a).trans hab).trans (alike_remember b).symm
    exact alike_change hremembered (alikeChange_loadValue hab _)
  | readDocument => exact alike_read hab _
  | readText =>
    rw [step, step, hab.options]
    exact alike_read hab _
  | readLine =>
    rw [step, step, hab.options]
    exact alike_read hab _

theorem run_cons (session : Session) (call : Call) (rest : List Call) :
    session.run (call :: rest) =
      (((session.step call).1.run rest).1,
        (session.step call).2 :: ((session.step call).1.run rest).2) := rfl

theorem alike_run {a b : Session} (hab : a.Alike b) (calls : List Call) :
    (a.run calls).2 = (b.run calls).2 ∧ (a.run calls).1.Alike (b.run calls).1 := by
  induction calls generalizing a b with
  | nil => exact ⟨rfl, hab⟩
  | cons call rest ih =>
    obtain ⟨hanswer, hafter⟩ := alike_step hab call
    obtain ⟨hanswers, hend⟩ := ih hafter
    rw [run_cons, run_cons, hanswer, hanswers]
    exact ⟨rfl, hend⟩

/-- An idle call leaves a session behind that is like the one before. -/
theorem alike_of_isIdle {session : Session} {call : Call} (hidle : session.IsIdle call) :
    (session.step call).1.Alike session := by
  have heffect := effect_step session call
  rw [change?_eq_none_iff.mpr hidle] at heffect
  generalize session.step call = outcome at heffect ⊢
  cases heffect with
  | dropped hadd hfull => exact .refl session
  | failed error hform hafter =>
    rcases hafter with rfl | rfl
    · exact .refl _
    · exact alike_remember session
  | shown form hform => exact alike_remember session

theorem run_append (session : Session) (calls more : List Call) :
    session.run (calls ++ more) =
      (((session.run calls).1.run more).1,
        (session.run calls).2 ++ ((session.run calls).1.run more).2) := by
  induction calls generalizing session with
  | nil => rfl
  | cons call rest ih =>
    rw [List.cons_append, run_cons, run_cons, ih]
    rfl

theorem length_answers_run (session : Session) (calls : List Call) :
    (session.run calls).2.length = calls.length := by
  induction calls generalizing session with
  | nil => rfl
  | cons call rest ih =>
    rw [run_cons, List.length_cons, List.length_cons, ih]

/-- Leaving out an idle call leaves out its answer, and changes no other. -/
theorem answers_run_append_of_isIdle {session : Session} {before : List Call} {call : Call}
    (rest : List Call) (hidle : (session.run before).1.IsIdle call) :
    (session.run (before ++ rest)).2 =
      (session.run (before ++ call :: rest)).2.eraseIdx before.length := by
  have hrest := (alike_run (alike_of_isIdle hidle) rest).1
  have hlength := length_answers_run session before
  rw [run_append, run_append, run_cons]
  dsimp only
  rw [hrest, ← hlength, List.eraseIdx_append_of_length_le (Nat.le_refl _), Nat.sub_self,
    List.eraseIdx_cons_zero]

/-! ## What is left of a history -/

/-- The document that was loaded last, if there is one, and the samples that were taken in
since. -/
structure Recent where
  loaded : Option Value := none
  samples : Batch := []

namespace Recent

/-- What is left after one more change: a load does away with everything before it. -/
def after (recent : Recent) : Change → Recent
  | .sample v => { recent with samples := recent.samples ++ [v] }
  | .document v => { loaded := some v }

/-- What is left of a history. -/
def ofHistory (history : List Change) : Recent :=
  history.foldl after {}

/-- How many samples count: a load counts as one. -/
def count (recent : Recent) : Nat :=
  (if recent.loaded.isSome then 1 else 0) + recent.samples.length

/-- The tree that the samples are observed in: the one of the loaded document, or a fresh one. -/
def start (recent : Recent) : Node :=
  match recent.loaded with
  | some v => (Node.ofOutline 1 (.ofValue v)).toOption.getD {}
  | none => {}

/-- The tree, built from scratch: all samples are observed as one batch, and types are prescribed
once in the end. -/
def tree (options : Options) (recent : Recent) : Node :=
  if recent.samples.isEmpty then recent.start
  else prescribe options.predefined (recent.start.observeAll options.observer recent.samples)

/-- The document to read: none as long as nothing was taken in, the loaded one as long as nothing
followed it, and otherwise that of the tree. -/
def document (options : Options) (recent : Recent) : Except Error Document :=
  match recent.samples, recent.loaded with
  | [], none => .error .noSamples
  | [], some v => Document.ofValue v
  | _ :: _, _ => .ok (Document.assemble options.version (recent.tree options))

theorem start_of_loaded {v : Value} {vs : Batch} {root : Node}
    (hroot : Node.ofOutline 1 (.ofValue v) = .ok root) : start ⟨some v, vs⟩ = root := by
  show (Node.ofOutline 1 (.ofValue v)).toOption.getD {} = root
  rw [hroot]
  rfl

theorem tree_of_ne_nil (options : Options) (loaded : Option Value) {vs : Batch} (hvs : vs ≠ []) :
    tree options ⟨loaded, vs⟩ =
      prescribe options.predefined (start ⟨loaded, vs⟩ |>.observeAll options.observer vs) := by
  cases vs with
  | nil => exact absurd rfl hvs
  | cons first rest => rfl

theorem document_of_ne_nil (options : Options) (loaded : Option Value) {vs : Batch}
    (hvs : vs ≠ []) :
    document options ⟨loaded, vs⟩ =
      .ok (Document.assemble options.version (tree options ⟨loaded, vs⟩)) := by
  cases vs with
  | nil => exact absurd rfl hvs
  | cons first rest => rfl

end Recent

/-- The session has taken in what is left of its history. -/
structure Follows (options : Options) (recent : Recent) (session : Session) : Prop where
  options_eq : session.options = options
  count_eq : session.count = recent.count
  root_eq : session.root = recent.tree options
  document_eq : session.document = recent.document options

section Follows

variable {options : Options} {recent : Recent} {session : Session}

theorem follows_fresh (options : Options) : Follows options {} { options } :=
  ⟨rfl, rfl, rfl, rfl⟩

theorem Follows.of_alike {other : Session} (h : Follows options recent session)
    (halike : other.Alike session) : Follows options recent other :=
  ⟨halike.options.trans h.options_eq, halike.count.trans h.count_eq, halike.root.trans h.root_eq,
    halike.document.trans h.document_eq⟩

/-- Observing one more sample in the tree is observing the batch with that sample at its end. -/
theorem prescribe_observe_tree (options : Options) (recent : Recent) (v : Value) :
    prescribe options.predefined ((recent.tree options).observe options.observer v) =
      (recent.after (.sample v)).tree options := by
  have hlonger : ((recent.after (.sample v)).samples).isEmpty = false := by
    simp [Recent.after]
  rw [Recent.tree, Recent.tree, hlonger, if_neg Bool.false_ne_true]
  show _ = prescribe _ (recent.start.observeAll _ (recent.samples ++ [v]))
  rw [Node.observeAll_append, Node.observeAll_cons, Node.observeAll_nil]
  split
  · rename_i hempty
    rw [List.isEmpty_iff.mp hempty, Node.observeAll_nil]
  · -- types were prescribed before, which neither the sample nor the next prescription notices
    exact prescribe_observe_congr _ _ v (prescribe_idem _ _)

theorem Follows.add (h : Follows options recent session)
    (hopen : session.options.cap.isReached session.count = false) (v : Value) :
    Follows options (recent.after (.sample v)) (session.add v).1 := by
  have hadd := add_of_not_isReached hopen v
  have hroot : (session.add v).1.root = (recent.after (.sample v)).tree options := by
    rw [hadd, ← prescribe_observe_tree, ← h.root_eq, ← h.options_eq]
  refine ⟨?_, ?_, hroot, ?_⟩
  · rw [hadd]
    exact h.options_eq
  · rw [hadd]
    show session.count + 1 = _
    rw [h.count_eq, Recent.count, Recent.count, Recent.after, List.length_append]
    rfl
  · have hdocument : (session.add v).1.document =
        .ok (Document.assemble options.version (session.add v).1.root) := by
      rw [hadd, ← h.options_eq]
      rfl
    rw [hdocument, hroot, Recent.document]
    cases hsamples : (recent.after (.sample v)).samples with
    | nil => simp [Recent.after] at hsamples
    | cons first rest => rfl

theorem Follows.load (h : Follows options recent session) {v : Value} {root : Node}
    {document : Document} (hload : loadable v = .ok (root, document)) :
    Follows options (recent.after (.document v))
      { session with root, count := 1, current := some document } := by
  obtain ⟨-, hroot, hdocument⟩ := loadable_eq_ok_iff.mp hload
  refine ⟨h.options_eq, rfl, ?_, hdocument.symm⟩
  -- nothing was taken in since, so the tree is the loaded one
  show root = (Node.ofOutline 1 (.ofValue v)).toOption.getD {}
  rw [hroot]
  rfl

theorem follows_step (h : Follows options recent session) (call : Call) :
    Follows options ((session.change? call).toList.foldl Recent.after recent)
      (session.step call).1 := by
  have heffect := effect_step session call
  generalize session.change? call = change at heffect ⊢
  generalize session.step call = outcome at heffect ⊢
  cases heffect with
  | taken v hadd hopen => exact h.add hopen v
  | dropped hadd hfull => exact h
  | loaded v hadd hform hload => exact h.load hload
  | failed error hform hafter =>
    rcases hafter with rfl | rfl
    · exact h
    · exact h.of_alike (alike_remember session)
  | shown form hform => exact h.of_alike (alike_remember session)

theorem follows_run (h : Follows options recent session) (calls : List Call) :
    Follows options ((session.changes calls).foldl Recent.after recent)
      (session.run calls).1 := by
  induction calls generalizing session recent with
  | nil => exact h
  | cons call rest ih =>
    rw [changes, List.foldl_append]
    exact ih (follows_step h call)

end Follows

/-- A session that was fresh has taken in what is left of its own history. -/
theorem follows_ofHistory (options : Options) (calls : List Call) :
    Follows options (.ofHistory (changes { options } calls)) (run { options } calls).1 :=
  follows_run (follows_fresh options) calls

/-- Nothing counts exactly if nothing changed: a sample adds one, and a load starts at one. -/
theorem count_ofHistory_eq_zero_iff (history : List Change) :
    (Recent.ofHistory history).count = 0 ↔ history = [] := by
  constructor
  · intro hcount
    -- from the end: whatever the last change was, it counts
    rcases List.eq_nil_or_concat history with rfl | ⟨earlier, change, rfl⟩
    · rfl
    · rw [Recent.ofHistory, List.concat_eq_append, List.foldl_append] at hcount
      cases change with
      | sample v => simp [Recent.after, Recent.count] at hcount
      | document v => simp [Recent.after, Recent.count] at hcount
  · rintro rfl
    rfl

theorem document_eq_error_iff {session : Session} {error : Error} :
    session.document = .error error ↔ session.count = 0 ∧ error = .noSamples := by
  unfold Session.document
  split
  · rename_i hzero
    simp [hzero, eq_comm]
  · rename_i hcount
    simp [hcount]

theorem step_of_form {session : Session} {call : Call} {form : Document → Except Error Answer}
    (hform : call.form? session.options.indent = some form) :
    (session.step call).2 = (do return (← form (← session.document), [])) := by
  cases call with
  | readDocument =>
    obtain rfl := Option.some.inj hform
    rfl
  | readText =>
    obtain rfl := Option.some.inj hform
    rfl
  | readLine =>
    obtain rfl := Option.some.inj hform
    rfl
  | _ => exact nomatch hform

/-- A document that is there may have no text, but that is another error. -/
theorem form_ne_noSamples {indent : String} {call : Call} {form : Document → Except Error Answer}
    (hform : call.form? indent = some form) (document : Document) :
    form document ≠ .error .noSamples := by
  have htext : document.toText indent ≠ .error .noSamples := by
    unfold Document.toText
    split
    · exact nofun
    · exact nofun
  have hshown : ∀ shown : String → Answer,
      (do return shown (← document.toText indent)) ≠ Except.error Error.noSamples := by
    intro shown h
    rcases except_bind_eq_error h with hnone | ⟨text, -, hshown⟩
    · exact htext hnone
    · exact nomatch hshown
  cases call with
  | readDocument =>
    obtain rfl := Option.some.inj hform
    exact nofun
  | readText =>
    obtain rfl := Option.some.inj hform
    exact hshown .text
  | readLine =>
    obtain rfl := Option.some.inj hform
    exact hshown fun text => .text (text ++ "\n")
  | _ => exact nomatch hform

theorem step_eq_noSamples_iff {session : Session} {call : Call}
    {form : Document → Except Error Answer}
    (hform : call.form? session.options.indent = some form) :
    (session.step call).2 = .error .noSamples ↔ session.count = 0 := by
  rw [step_of_form hform]
  cases hdocument : session.document with
  | error error =>
    obtain ⟨hzero, rfl⟩ := document_eq_error_iff.mp hdocument
    exact iff_of_true rfl hzero
  | ok document =>
    have hcount : session.count ≠ 0 := by
      intro hzero
      rw [document_eq_error_iff.mpr ⟨hzero, rfl⟩] at hdocument
      exact nomatch hdocument
    refine iff_of_false ?_ hcount
    have hform := form_ne_noSamples hform document
    show (do return (← form document, [])) ≠ Except.error Error.noSamples
    cases hanswer : form document with
    | error error =>
      rw [hanswer] at hform
      exact fun h => hform (congrArg Except.error (Except.error.inj h))
    | ok answer => exact nofun

/-- **A session answers from its history alone.** Whatever calls were made of a fresh session, a
read shows the document that is made from scratch from the last load and the samples behind it,
and says that there are no samples exactly if no change was made. Leaving out a call without
effect, wherever it stands, leaves out its answer and changes no other. -/
theorem answers_of_history (options : Options) (calls : List Call) :
    let after := (run { options } calls).1
    let history := changes { options } calls
    (∀ call form, call.form? options.indent = some form →
      (after.step call).2 = (do return (← form (← (Recent.ofHistory history).document options), [])) ∧
      ((after.step call).2 = .error .noSamples ↔ history = [])) ∧
    (∀ before call rest, calls = before ++ call :: rest →
      IsIdle (run { options } before).1 call →
      (run { options } (before ++ rest)).2 = (run { options } calls).2.eraseIdx before.length) := by
  intro after history
  have hfollows : Follows options (.ofHistory history) after :=
    follows_run (follows_fresh options) calls
  constructor
  · intro call form hform
    rw [← hfollows.options_eq] at hform
    constructor
    · rw [step_of_form hform, hfollows.document_eq]
    · rw [step_eq_noSamples_iff hform, hfollows.count_eq, count_ofHistory_eq_zero_iff]
  · rintro before call rest rfl hidle
    exact answers_run_append_of_isIdle rest hidle

end Session

end SampleSchema
