import SampleSchema.Proofs.History
/-!
# A cap truncates

A session with a cap lets samples beyond it pass by. A load starts to count at one again, so that
what is beyond the cap depends on the calls before. This module says which samples that are, by the
calls alone, and that a session without a cap, when it is not given them, cannot be told apart.

* `truncated` leaves out of a sequence of calls the samples that come after the cap is reached. It
  goes by how many samples are left to be kept, which `leftAfter` counts.
* `left_step`: as long as nothing is refused, the cap less the number of samples is what is left.
* `step_of_isReached`, `step_uncapped_of_isAdd` and `step_uncapped_of_not_isAdd`: a sample for which
  none is left leaves a session as it was, and with every other call a session without its cap goes
  along.
* `run_uncapped` is the run, by induction on the calls, and `reads_truncated` says what it comes to
  for two sessions whose settings differ in the cap alone.
-/

namespace SampleSchema

namespace Session

/-! ## Truncated calls -/

/-- How many samples are left to be kept after a call. A load makes room for as many as the cap
leaves beside the document, which counts as one. -/
def leftAfter (cap left : Nat) (call : Call) : Nat :=
  if call.isAdd then left - 1
  else if call.isLoad then cap - 1
  else left

/-- The calls without the samples for which none is left. -/
def truncated (cap : Nat) : Nat → List Call → List Call
  | _, [] => []
  | left, call :: rest =>
    let kept := truncated cap (leftAfter cap left call) rest
    if call.isAdd && left == 0 then kept else call :: kept

/-- No sample and no load of the calls is refused. -/
def Accepts (session : Session) : List Call → Prop
  | [] => True
  | call :: rest =>
    (call.isAdd = true ∨ call.isLoad = true → ∃ told, (session.step call).2 = .ok told) ∧
      Accepts (session.step call).1 rest

theorem form?_eq_none_iff {call : Call} {indent : String} :
    call.form? indent = none ↔ call.isAdd = true ∨ call.isLoad = true := by
  cases call <;> simp [Call.form?, Call.isAdd, Call.isLoad]

theorem leftAfter_of_isAdd {call : Call} (hadd : call.isAdd = true) (cap left : Nat) :
    leftAfter cap left call = left - 1 :=
  if_pos hadd

theorem leftAfter_of_isLoad {call : Call} (hadd : call.isAdd = false) (hload : call.isLoad = true)
    (cap left : Nat) : leftAfter cap left call = cap - 1 := by
  rw [leftAfter, hadd, if_neg Bool.false_ne_true, if_pos hload]

theorem leftAfter_of_form? {call : Call} {indent : String} {form : Document → Except Error Answer}
    (hform : call.form? indent = some form) (cap left : Nat) :
    leftAfter cap left call = left := by
  cases call with
  | readDocument | readText | readLine => rfl
  | _ => exact nomatch hform

/-! ## Steps with a cap -/

section Step

variable {session : Session} {call : Call}

theorem options_step (session : Session) (call : Call) :
    (session.step call).1.options = session.options := by
  have heffect := effect_step session call
  generalize session.change? call = change at heffect
  generalize session.step call = outcome at heffect ⊢
  cases heffect with
  | taken v hadd hopen =>
    show (session.add v).1.options = _
    rw [add_of_not_isReached hopen]
  | dropped hadd hfull => rfl
  | loaded v hadd hform hload => rfl
  | failed error hform hafter =>
    rcases hafter with rfl | rfl
    · rfl
    · exact (alike_remember session).options
  | shown form hform => exact (alike_remember session).options

/-- The cap less the number of samples is how many are left, unless a sample or a load is
refused. -/
theorem left_step {cap : Nat} {isAnnounced : Bool}
    (hcap : session.options.cap = .limited cap isAnnounced)
    (haccept : call.isAdd = true ∨ call.isLoad = true → ∃ told, (session.step call).2 = .ok told) :
    cap - (session.step call).1.count = leftAfter cap (cap - session.count) call := by
  have heffect := effect_step session call
  generalize session.change? call = change at heffect
  generalize session.step call = outcome at heffect haccept ⊢
  cases heffect with
  | taken v hadd hopen =>
    rw [leftAfter_of_isAdd hadd]
    show cap - (session.add v).1.count = _
    rw [add_of_not_isReached hopen]
    exact Nat.sub_add_eq cap session.count 1
  | dropped hadd hfull =>
    -- nothing was left before
    rw [hcap] at hfull
    have hnone : cap - session.count = 0 := Nat.sub_eq_zero_of_le (of_decide_eq_true hfull)
    rw [leftAfter_of_isAdd hadd, hnone]
  | loaded v hadd hform hload =>
    have hisLoad : call.isLoad = true :=
      (form?_eq_none_iff.mp hform).resolve_left (by rw [hadd]; exact Bool.false_ne_true)
    rw [leftAfter_of_isLoad hadd hisLoad]
  | failed error hform hafter =>
    obtain ⟨told, htold⟩ := haccept (form?_eq_none_iff.mp hform)
    exact nomatch htold
  | shown form hform =>
    rw [leftAfter_of_form? hform]
    exact congrArg (cap - ·) (alike_remember session).count

/-! ## Steps without it -/

/-- The session without its cap. -/
def uncapped (session : Session) : Session :=
  { session with options := { session.options with cap := .unlimited } }

theorem remember_uncapped (session : Session) :
    session.uncapped.remember = session.remember.uncapped := by
  have hdocument : session.uncapped.document = session.document := rfl
  unfold remember
  rw [hdocument]
  split <;> rfl

/-- A sample for which none is left makes no difference, whether it can be read or not. -/
theorem step_of_isReached (hadd : call.isAdd = true)
    (hfull : session.options.cap.isReached session.count = true) :
    (session.step call).1 = session := by
  rw [← Call.isSome_reading?] at hadd
  obtain ⟨result, hreading⟩ := Option.isSome_iff_exists.mp hadd
  rw [(step_of_reading? hreading session).1]
  cases result with
  | error error => rfl
  | ok v => exact congrArg Prod.fst (add_of_isReached hfull)

/-- A sample that is kept is kept without the cap, too. -/
theorem step_uncapped_of_isAdd (hadd : call.isAdd = true)
    (hopen : session.options.cap.isReached session.count = false) :
    (session.uncapped.step call).1 = (session.step call).1.uncapped := by
  rw [← Call.isSome_reading?] at hadd
  obtain ⟨result, hreading⟩ := Option.isSome_iff_exists.mp hadd
  rw [(step_of_reading? hreading session).1, (step_of_reading? hreading session.uncapped).1]
  cases result with
  | error error => rfl
  | ok v =>
    show (session.uncapped.add v).1 = (session.add v).1.uncapped
    rw [add_of_not_isReached hopen, add_of_unlimited rfl]
    rfl

theorem change_loadValue_uncapped (session after : Session) (result : Except Error Value) :
    after.uncapped.change (do session.uncapped.loadValue (← result)) =
      ((after.change (do session.loadValue (← result))).1.uncapped,
        (after.change (do session.loadValue (← result))).2) := by
  cases result with
  | error error => rfl
  | ok v =>
    show after.uncapped.change (session.uncapped.loadValue v) =
      ((after.change (session.loadValue v)).1.uncapped, (after.change (session.loadValue v)).2)
    unfold loadValue
    cases loadable v <;> rfl

/-- Whatever brings no sample comes to the same without the cap. -/
theorem step_uncapped_of_not_isAdd (hadd : call.isAdd = false) :
    session.uncapped.step call = ((session.step call).1.uncapped, (session.step call).2) := by
  have hread : ∀ form : Document → Except Error Answer,
      session.uncapped.read form = ((session.read form).1.uncapped, (session.read form).2) :=
    fun form => Prod.ext (remember_uncapped session) rfl
  cases call with
  | load v =>
    rw [step_load_eq, step_load_eq]
    exact change_loadValue_uncapped session session (given v)
  | loadDocument document => exact change_loadValue_uncapped session session (.ok document.toValue)
  | reload =>
    rw [step_reload_eq, step_reload_eq, remember_uncapped]
    exact change_loadValue_uncapped session session.remember _
  | readDocument => exact hread _
  | readText => exact hread _
  | readLine => exact hread _
  | _ => exact nomatch hadd

/-- **The calls that are left lead to the same session without the cap.** -/
theorem run_uncapped {cap : Nat} {isAnnounced : Bool}
    (hcap : session.options.cap = .limited cap isAnnounced) {calls : List Call}
    (hcalls : session.Accepts calls) :
    (session.uncapped.run (truncated cap (cap - session.count) calls)).1 =
      (session.run calls).1.uncapped := by
  induction calls generalizing session with
  | nil => rfl
  | cons call rest ih =>
    obtain ⟨haccept, hrest⟩ := hcalls
    have hcapAfter : (session.step call).1.options.cap = .limited cap isAnnounced := by
      rw [options_step, hcap]
    have hafter := ih hcapAfter hrest
    rw [left_step hcap haccept] at hafter
    rw [truncated, run_cons, ← hafter]
    cases hadd : call.isAdd with
    | false =>
      rw [Bool.false_and, if_neg Bool.false_ne_true, run_cons, step_uncapped_of_not_isAdd hadd]
    | true =>
      rw [Bool.true_and]
      split
      · rename_i hnone
        have hfull : session.options.cap.isReached session.count = true := by
          rw [hcap]
          exact decide_eq_true (Nat.le_of_sub_eq_zero (beq_iff_eq.mp hnone))
        rw [step_of_isReached hadd hfull]
      · rename_i hsome
        have hopen : session.options.cap.isReached session.count = false := by
          rw [hcap]
          refine decide_eq_false fun hle => hsome ?_
          exact beq_iff_eq.mpr (Nat.sub_eq_zero_of_le hle)
        rw [run_cons, step_uncapped_of_isAdd hadd hopen]

end Step

/-! ## Settings that differ in the cap -/

theorem cap_ofValue_int {cap : Nat} (hcap : 1 ≤ cap) :
    Cap.ofValue (.int cap) = .ok (.limited cap true) := by
  have hpositive : ¬ (cap : Int) < 0 := by omega
  have hsome : (cap : Int) ≠ 0 := by omega
  show (if (cap : Int) < 0 then Except.error Error.negativeCap
    else .ok (if (cap : Int) = 0 then Cap.unlimited else .limited (cap : Int).toNat true)) = _
  rw [if_neg hpositive, if_neg hsome, Int.toNat_natCast]

theorem start_uncapped {settings : Settings} {cap : Nat} (hcap : 1 ≤ cap) {session : Session}
    (h : start { settings with cap := .int cap } = .ok session) :
    session.options.cap = .limited cap true ∧
      start { settings with cap := .int 0 } = .ok session.uncapped := by
  have hoptions := ofSettings_of_start h
  rw [start_eq h]
  unfold Options.ofSettings at hoptions
  rw [cap_ofValue_int hcap] at hoptions
  obtain ⟨predefined, hpredefined, hoptions⟩ := except_bind_eq_ok hoptions
  obtain ⟨limit, hlimit, hoptions⟩ := except_bind_eq_ok hoptions
  obtain ⟨detectors, hdetectors, hoptions⟩ := except_bind_eq_ok hoptions
  obtain ⟨indent, hindent, hoptions⟩ := except_bind_eq_ok hoptions
  obtain rfl := Except.ok.inj hlimit
  rw [← Except.ok.inj hoptions]
  refine ⟨rfl, ?_⟩
  unfold start Options.ofSettings
  dsimp only
  rw [hpredefined, hdetectors, hindent]
  rfl

/-- **A cap is a truncation.** Start a session with a cap of at least one, and another whose
settings are the same but without a cap. Make any calls of the first, none of whose samples and
loads is refused, and of the other these calls without the samples that come too late: before the
first load as many samples are kept as the cap says, and behind each load one less. Then both have
counted as many samples, have the same document and text, and every call but a further sample is
answered alike. -/
theorem reads_truncated (settings : Settings) {cap : Nat} (hcap : 1 ≤ cap) {capped : Session}
    (hstart : start { settings with cap := .int cap } = .ok capped) {calls : List Call}
    (hcalls : capped.Accepts calls) :
    ∃ uncapped, start { settings with cap := .int 0 } = .ok uncapped ∧
      let after := (capped.run calls).1
      let other := (uncapped.run (truncated cap cap calls)).1
      after.count = other.count ∧ after.document = other.document ∧ after.text = other.text ∧
        ∀ call, call.isAdd = false → (after.step call).2 = (other.step call).2 := by
  obtain ⟨hlimit, huncapped⟩ := start_uncapped hcap hstart
  refine ⟨capped.uncapped, huncapped, ?_⟩
  intro after other
  have hother : other = after.uncapped := by
    have hcount : cap - capped.count = cap := by
      rw [start_eq hstart]
      exact Nat.sub_zero cap
    have hrun := run_uncapped hlimit hcalls
    rwa [hcount] at hrun
  rw [hother]
  refine ⟨rfl, rfl, rfl, fun call hadd => ?_⟩
  rw [step_uncapped_of_not_isAdd hadd]

/-- Samples before a load and behind it, one more each than a cap of two lets in, and reads between
them. -/
def crowdedCalls : List Call :=
  [.add (.object [("a", .int 1)]), .readDocument, .add (.object [("b", .int 2)]),
   .add (.object [("c", .int 3)]), .readText,
   .load (.object [("type", .str "object")]), .add (.list []), .add (.object [("d", .int 4)])]

theorem reads_truncated_crowdedCalls :
    ∃ capped uncapped, start { cap := .int 2 } = .ok capped ∧
      start { cap := .int 0 } = .ok uncapped ∧
      let kept : List Call :=
        [.add (.object [("a", .int 1)]), .readDocument, .add (.object [("b", .int 2)]), .readText,
         .load (.object [("type", .str "object")]), .add (.list [])]
      ((capped.run crowdedCalls).1.step .readDocument).2 =
        ((uncapped.run kept).1.step .readDocument).2 ∧
      (capped.run crowdedCalls).1.count = (uncapped.run kept).1.count := by
  have hcalls : Accepts { options := ⟨[], .limited 2 true, ⟨false, Detector.known⟩,
      some (.str draft07Url), ""⟩ } crowdedCalls :=
    ⟨fun _ => ⟨_, rfl⟩, fun _ => ⟨_, rfl⟩, fun _ => ⟨_, rfl⟩, fun _ => ⟨_, rfl⟩, nofun,
      fun _ => ⟨_, rfl⟩, fun _ => ⟨_, rfl⟩, fun _ => ⟨_, rfl⟩, trivial⟩
  obtain ⟨uncapped, hstart, hcount, -, -, hreads⟩ :=
    @reads_truncated {} 2 (Nat.le_succ 1) _ rfl _ hcalls
  exact ⟨_, uncapped, rfl, hstart, hreads .readDocument rfl, hcount⟩

end Session

end SampleSchema
