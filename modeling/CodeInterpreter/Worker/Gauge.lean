import CodeInterpreter.System

/-!
# The in-flight gauge

`_run_job` increments `JOBS_IN_FLIGHT` at its start and decrements it in the `finally` block around
the execution. Between the two stand the commands of `set_running` and the status publish, which
the block does not cover, and in the block the decrement comes after the watcher was awaited.

Any number of calls run next to each other on one gauge. Everything else that they talk to answers
as it likes.

## Main definitions

* `JobCall`, `runJobs`: the system of the calls.
* `setupFails`, `watcherRaises`: the two ways in which a call skips the decrement.

## Main results

* `runJob_counts`: what one call adds to the gauge.
* `gauge_balanced_iff`: after all calls the gauge is back exactly if no call failed in these ways.
* `gauge_drifts`: a call whose status publish fails.
-/

namespace CodeInterpreter.Worker

open Async

/-! ### The system of the calls -/

/-- A call of `_run_job`. -/
structure JobCall where
  jobId : Str
  request : ExecutionRequest

/-- What a command adds to `JOBS_IN_FLIGHT`. -/
def gaugeStep : Cmd → ℤ
  | .inFlight n => n
  | _ => 0

/-- The calls of `_run_job` of one worker. The world is the value of the gauge; the replies of
Redis and of the executor are those of the oracle. -/
def runJobs (cfg : WorkerConfig) (gauge : ℤ) :
    Async.System ℤ Cmd Reply Exc JobCall ((c : Cmd) → Reply c) JobCall where
  init := gauge
  exec _ g c o := (gaugeStep c + g, o c)
  mayFail := mayFail
  fork _ _ := []
  handler call := (call, runJob cfg call.jobId call.request)
  admits _ _ := true

/-! ### The failures that matter -/

/-- The event is an execution. -/
def executes : Event Cmd Reply Exc → Bool
  | ⟨.execute _ _, _⟩ => true
  | _ => false

/-- The command raised. -/
def failed (e : Event Cmd Reply Exc) : Bool :=
  match e.answer with
  | .error _ => true
  | .ok _ => false

/-- A command raised before the execution: a read or a write of `set_running` or the status
publish. -/
def setupFails : Trace → Bool
  | [] => false
  | e :: t => setupFails t || (failed e && !t.any executes)

/-- The execution ended with a watcher that had raised. -/
def watcherRaises : Event Cmd Reply Exc → Bool
  | ⟨.execute _ _, .ok execution⟩ =>
    match watchCancel execution.polls with
    | .error _ => true
    | .ok _ => false
  | _ => false

/-- What the commands of a trace add to the gauge. -/
def gaugeOf (t : Trace) : ℤ := (t.map fun e => gaugeStep e.cmd).sum

@[simp] theorem gaugeOf_cons (e : Event Cmd Reply Exc) (t : Trace) :
    gaugeOf (e :: t) = gaugeStep e.cmd + gaugeOf t := rfl

/-- The call failed before the execution or in the watcher. -/
def skipsDecrement (t : Trace) : Bool := setupFails t || t.any watcherRaises

/-- A call owes nothing but that it ends with the gauge counted down, unless it failed before the
execution or in the watcher. -/
def gaugeDiscipline : Discipline Cmd Reply Exc JobCall where
  allows _ _ _ := True
  ends _ t := gaugeOf t = if skipsDecrement t then 1 else 0

/-! ### One call -/

section Call

variable {t : Trace}

/-- The answers that a call may get: a command that cannot fail gets its reply. -/
def callContract : Contract Cmd Reply Exc where
  allows _ _ := True
  answers _ c r := mayFail c = true ∨ ∃ a, r = .ok a

/-- The commands that neither touch the gauge nor execute. -/
def Plain (c : Cmd) : Prop := gaugeStep c = 0 ∧ ∀ r, executes ⟨c, r⟩ = false

theorem watcherRaises_of_plain {c : Cmd} (hc : Plain c) (r : Except Exc (Reply c)) :
    watcherRaises ⟨c, r⟩ = false := by
  cases c with
  | execute request jobId => exact absurd (hc.2 r) (by simp [executes])
  | _ => rfl

/-- The call has been counted and nothing has failed. -/
structure Counted (t : Trace) : Prop where
  gauge : gaugeOf t = 1
  setup : setupFails t = false
  unstarted : t.any executes = false
  watcher : t.any watcherRaises = false

/-- From a counted state the program ends in one, unless a command of it raises. -/
def Prepares {α : Type} (p : Prog α) : Prop :=
  ∀ t, Counted t → p.wp callContract (fun out t' => match out with
    | .ok _ => Counted t'
    | .error _ => gaugeOf t' = 1 ∧ setupFails t' = true) t

theorem prepares_pure {α : Type} (a : α) : Prepares (pure a : Prog α) := fun _ ht => ht

theorem prepares_issue {c : Cmd} (hc : Plain c) : Prepares (issue c) := by
  intro t ht
  refine (Program.wp_perform _ _ _).mpr ⟨trivial, fun r _ => ?_⟩
  have hgauge : gaugeOf (⟨c, r⟩ :: t) = 1 := by rw [gaugeOf_cons, hc.1, ht.gauge, zero_add]
  cases r with
  | ok a =>
    refine ⟨hgauge, ?_, ?_, ?_⟩
    · simp [setupFails, failed, ht.setup]
    · rw [List.any_cons, hc.2, ht.unstarted, Bool.or_self]
    · rw [List.any_cons, watcherRaises_of_plain hc, ht.watcher, Bool.or_self]
  | error e => exact ⟨hgauge, by simp [setupFails, failed, ht.unstarted]⟩

theorem prepares_bind {α β : Type} {p : Prog α} {f : α → Prog β} (hp : Prepares p)
    (hf : ∀ a, Prepares (f a)) : Prepares (p >>= f) := fun t ht =>
  Program.wp_bind_of (hp t ht) (fun a t' _ ht' => hf a t' ht') fun _ _ _ ht' => ht'

theorem setRunning_prepares (jobId workerId : Str) : Prepares (setRunning jobId workerId) := by
  refine prepares_bind (prepares_bind (prepares_issue ⟨rfl, fun _ => rfl⟩) fun record => ?_)
    fun _ => prepares_pure ()
  cases record with
  | none => exact prepares_pure none
  | some record =>
    exact prepares_bind (prepares_issue ⟨rfl, fun _ => rfl⟩) fun _ => prepares_pure _

/-- The call has been counted down again, after an execution whose watcher did not raise. -/
structure CountedDown (t : Trace) : Prop where
  gauge : gaugeOf t = 0
  setup : setupFails t = false
  started : t.any executes = true
  watcher : t.any watcherRaises = false

theorem CountedDown.cons {c : Cmd} (ht : CountedDown t) (hc : Plain c)
    (r : Except Exc (Reply c)) : CountedDown (⟨c, r⟩ :: t) where
  gauge := by rw [gaugeOf_cons, hc.1, ht.gauge, zero_add]
  setup := by simp [setupFails, ht.setup, ht.started]
  started := by rw [List.any_cons, ht.started, Bool.or_true]
  watcher := by rw [List.any_cons, watcherRaises_of_plain hc, ht.watcher, Bool.or_self]

theorem archive_plain (cfg : WorkerConfig) (jobId : Str) (result : ExecutionResult) :
    (archive cfg jobId result).Issues Plain := by
  refine Program.issues_ite (Program.issues_tryCatch ?_ fun _ => Program.issues_pure _)
    (Program.issues_pure _)
  exact Program.issues_perform ⟨rfl, fun _ => rfl⟩

theorem patchRecord_plain (jobId : Str) (fields : JobRecord → JobRecord) :
    (patchRecord jobId fields).Issues Plain := by
  refine Program.issues_bind (Program.issues_perform ⟨rfl, fun _ => rfl⟩) fun record => ?_
  cases record with
  | none => exact Program.issues_pure _
  | some record =>
    exact Program.issues_bind (Program.issues_perform ⟨rfl, fun _ => rfl⟩) fun _ =>
      Program.issues_pure _

/-- What follows the `finally` block neither touches the gauge nor executes. -/
theorem storeAndPublish_plain (cfg : WorkerConfig) (jobId : Str) (result : ExecutionResult) :
    (storeTerminal cfg jobId result >>= fun _ => publishDone jobId result).Issues Plain := by
  refine Program.issues_bind ?_ fun _ => Program.issues_perform ⟨rfl, fun _ => rfl⟩
  refine Program.issues_bind (archive_plain cfg jobId result) fun _ => ?_
  refine Program.issues_bind (Program.issues_perform ⟨rfl, fun _ => rfl⟩) fun _ => ?_
  exact Program.issues_bind (patchRecord_plain jobId _) fun _ => Program.issues_pure _

/-- **What one call adds to the gauge**: nothing, or one if it failed before the execution or in
the watcher. -/
theorem runJob_counts (cfg : WorkerConfig) (jobId : Str) (request : ExecutionRequest) :
    (runJob cfg jobId request).wp callContract
      (fun _ t => gaugeOf t = if skipsDecrement t then 1 else 0) [] := by
  refine (Program.wp_bind _ _ _ _).mpr ((Program.wp_perform _ _ _).mpr ⟨trivial, ?_⟩)
  rintro r (hr | ⟨_, rfl⟩)
  · cases hr
  have hcounted : Counted [⟨.inFlight 1, .ok ()⟩] := ⟨rfl, rfl, rfl, rfl⟩
  have hsetup : ∀ t' : Trace, gaugeOf t' = 1 ∧ setupFails t' = true →
      gaugeOf t' = if skipsDecrement t' then 1 else 0 := by
    rintro t' ⟨hg, hs⟩
    rw [skipsDecrement, hs, Bool.true_or, if_pos rfl, hg]
  refine Program.wp_bind_of (setRunning_prepares jobId _ _ hcounted) ?_ fun _ t' _ => hsetup t'
  intro _ t₁ _ ht₁
  refine Program.wp_bind_of (prepares_issue ⟨rfl, fun _ => rfl⟩ t₁ ht₁) ?_ fun _ t' _ => hsetup t'
  intro _ t₂ _ ht₂
  refine (Program.wp_bind _ _ _ _).mpr ((Program.wp_perform _ _ _).mpr ⟨trivial, ?_⟩)
  rintro r (hr | ⟨execution, rfl⟩)
  · cases hr
  refine (Program.wp_bind _ _ _ _).mpr ((Program.wp_ofExcept _ _ _).mpr ?_)
  cases hwatch : watchCancel execution.polls with
  | error e =>
    -- the exception of the watcher leaves the `finally` block before the decrement
    have hraises : watcherRaises ⟨.execute request jobId, .ok execution⟩ = true := by
      simp [watcherRaises, hwatch]
    change gaugeOf (⟨.execute request jobId, .ok execution⟩ :: t₂) = _
    rw [skipsDecrement, List.any_cons, hraises, Bool.true_or, Bool.or_true, if_pos rfl,
      gaugeOf_cons, ht₂.gauge]
    rfl
  | ok u =>
    refine (Program.wp_bind _ _ _ _).mpr ((Program.wp_perform _ _ _).mpr ⟨trivial, ?_⟩)
    rintro r (hr | ⟨_, rfl⟩)
    · cases hr
    have hdown : CountedDown (⟨.inFlight (-1), .ok ()⟩ ::
        ⟨.execute request jobId, .ok execution⟩ :: t₂) := by
      refine ⟨?_, ?_, ?_, ?_⟩
      · rw [gaugeOf_cons, gaugeOf_cons, ht₂.gauge]
        rfl
      · simp [setupFails, failed, ht₂.setup]
      · simp [executes]
      · rw [List.any_cons, List.any_cons, ht₂.watcher]
        simp [watcherRaises, hwatch]
    have hends : ∀ t' : Trace, CountedDown t' →
        gaugeOf t' = if skipsDecrement t' then 1 else 0 := by
      intro t' ht'
      rw [skipsDecrement, ht'.setup, ht'.watcher, ht'.gauge]
      rfl
    refine (Program.wp_bind _ _ _ _).mpr ((Program.wp_ofExcept _ _ _).mpr ?_)
    cases execution.outcome with
    | error e => exact hends _ hdown
    | ok result =>
      refine Program.wp_mono (Program.wp_of_issues (storeAndPublish_plain cfg jobId result)
        (fun _ _ => trivial) (fun t' c r hc ht' => ht'.cons hc r) hdown) ?_
      exact fun _ t' ht' => hends t' ht'

end Call

/-! ### All calls -/

section Calls

variable {cfg : WorkerConfig} {gauge : ℤ} {s : Async.State ℤ Cmd Reply Exc JobCall JobCall}

/-- The worker does not crash: a call is not cut off. -/
def NoCrash (_ : Async.State ℤ Cmd Reply Exc JobCall JobCall)
    (a : Action Exc ((c : Cmd) → Reply c) JobCall) : Prop := ∀ i, a ≠ .crash i

/-- A command changes the gauge by its step, whatever happens to it: those that may fail have none.
-/
theorem gauge_responds {now : ℕ} {g g' : ℤ} {c : Cmd} {r : Except Exc (Reply c)} {b : Bool}
    (h : (runJobs cfg gauge).Responds now g c g' r b) : g' = gaugeStep c + g := by
  cases h with
  | reply o => rfl
  | lost hf e =>
    cases c with
    | inFlight n => cases hf
    | _ => exact (zero_add g).symm
  | unheard hf e o => rfl

theorem sum_ite_eq_countP {α : Type} (f : α → ℤ) (b : α → Bool) (l : List α)
    (h : ∀ a ∈ l, f a = if b a then 1 else 0) : (l.map f).sum = l.countP b := by
  induction l with
  | nil => rfl
  | cons a l ih =>
    have htail := ih fun x hx => h x (List.mem_cons_of_mem a hx)
    rw [List.map_cons, List.sum_cons, List.countP_cons, htail, h a List.mem_cons_self]
    split_ifs <;> push_cast <;> omega

/-- After all calls have ended, the gauge is too high by one for each call that skipped the
decrement. -/
theorem gauge_drift (h : (runJobs cfg gauge).Run NoCrash (runJobs cfg gauge).start s)
    (hend : ∀ p ∈ s.procs, p.next = none) :
    s.world = s.procs.countP (fun p => skipsDecrement p.trace) + gauge := by
  have hkept := System.reachable_kept (D := gaugeDiscipline) (h.reachable .refl)
    (fun q => runJob_counts cfg q.jobId q.request) fun _ _ _ _ x hx => absurd hx List.not_mem_nil
  have hsum := System.Run.sum_traces id (fun e => gaugeStep e.cmd)
    (fun _ _ _ _ _ _ hr => gauge_responds hr) (fun _ _ ha => ha) h
  rw [id, id, sum_ite_eq_countP _ (fun p => skipsDecrement p.trace) s.procs] at hsum
  · exact hsum
  · exact fun p hp => (hkept p hp).ends (hend p hp)

/-- **The gauge is balanced exactly if no call failed in `set_running`, in the status publish or in
the watcher.** -/
theorem gauge_balanced_iff (h : (runJobs cfg gauge).Run NoCrash (runJobs cfg gauge).start s)
    (hend : ∀ p ∈ s.procs, p.next = none) :
    s.world = gauge ↔ ∀ p ∈ s.procs, setupFails p.trace = false ∧
      p.trace.any watcherRaises = false := by
  have hcount : s.world = gauge ↔ s.procs.countP (fun p => skipsDecrement p.trace) = 0 := by
    rw [gauge_drift h hend]
    omega
  rw [hcount, List.countP_eq_zero]
  refine forall₂_congr fun p _ => ?_
  rw [Bool.not_eq_true, skipsDecrement, Bool.or_eq_false_iff]

/-! ### Two calls of the sample job -/

/-- The test for `NoCrash`. -/
def noCrash (_ : Async.State ℤ Cmd Reply Exc JobCall JobCall) :
    Action Exc ((c : Cmd) → Reply c) JobCall → Bool
  | .crash _ => false
  | _ => true

theorem noCrash_sound {a : Action Exc ((c : Cmd) → Reply c) JobCall} (h : noCrash s a = true) :
    NoCrash s a := by
  rintro i rfl
  cases h

/-- The program of the sample job, as the worker receives it. -/
def sampleCall : JobCall where
  jobId := sampleId
  request := ⟨str "python", str "print(1)", [], 10, [], []⟩

/-- The next command of a call is answered as by an empty Redis; an execution gives the result of
the sample job. -/
def answered (i : ℕ) : Action Exc ((c : Cmd) → Reply c) JobCall :=
  .answer i (.reply fun c =>
    (World.exec 0 World.init c { execution := ⟨[.flag false], .ok sampleResult⟩ }).2)

/-- The next command of a call raises. -/
def refused (i : ℕ) : Action Exc ((c : Cmd) → Reply c) JobCall := .answer i (.lost .other)

/-- The calls start next to each other; the done publish of the second one fails. -/
def twoCalls : List (Action Exc ((c : Cmd) → Reply c) JobCall) :=
  [.arrive sampleCall, .arrive sampleCall] ++
    (List.replicate 7 [answered 0, answered 1]).flatten ++ [answered 0, refused 1]

/-- The status publish of the second call fails. -/
def statusRefused : List (Action Exc ((c : Cmd) → Reply c) JobCall) :=
  [.arrive sampleCall, .arrive sampleCall, answered 0, answered 1, answered 1, refused 1] ++
    List.replicate 7 (answered 0)

/-- The calls of a worker with the default settings, from a gauge at zero. -/
def sampleCalls : Async.System ℤ Cmd Reply Exc JobCall ((c : Cmd) → Reply c) JobCall :=
  runJobs (Deployment.default.worker (str "worker-1")) 0

/-- The failure of a done publish leaves the gauge balanced. -/
theorem gauge_balanced_iff_two :
    ∃ s, sampleCalls.Run NoCrash sampleCalls.start s ∧ s.procs.length = 2 ∧
      (∀ p ∈ s.procs, p.next = none) ∧ (∃ p ∈ s.procs, p.trace.any failed = true) ∧
      s.world = 0 := by
  have hrun : sampleCalls.Run NoCrash sampleCalls.start
      (sampleCalls.run sampleCalls.start twoCalls) :=
    System.run_of_test noCrash (fun _ _ => noCrash_sound) twoCalls (by decide +kernel)
  have hend : ∀ p ∈ (sampleCalls.run sampleCalls.start twoCalls).procs, p.next = none := by
    have hnone : ∀ p ∈ (sampleCalls.run sampleCalls.start twoCalls).procs,
        p.next.isNone = true := by decide +kernel
    exact fun p hp => Option.isNone_iff_eq_none.mp (hnone p hp)
  exact ⟨_, hrun, by decide +kernel, hend, by decide +kernel,
    (gauge_balanced_iff hrun hend).mpr (by decide +kernel)⟩

/-- A call whose status publish fails stays counted for ever. -/
theorem gauge_drifts :
    ∃ s, sampleCalls.Run NoCrash sampleCalls.start s ∧ (∀ p ∈ s.procs, p.next = none) ∧
      s.world = 1 := by
  have hrun : sampleCalls.Run NoCrash sampleCalls.start
      (sampleCalls.run sampleCalls.start statusRefused) :=
    System.run_of_test noCrash (fun _ _ => noCrash_sound) statusRefused (by decide +kernel)
  have hnone : ∀ p ∈ (sampleCalls.run sampleCalls.start statusRefused).procs,
      p.next.isNone = true := by decide +kernel
  exact ⟨_, hrun, fun p hp => Option.isNone_iff_eq_none.mp (hnone p hp), by decide +kernel⟩

end Calls

end CodeInterpreter.Worker
