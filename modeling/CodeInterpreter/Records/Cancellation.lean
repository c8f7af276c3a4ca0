import CodeInterpreter.Invariants.Deliveries

/-!
# Jobs cancelled while pending

`DELETE` marks a job by a cancellation flag that lives for two minutes, and a worker looks at the
flag when it picks the job up. A job that no worker had picked up is not run as long as all these
looks come before the flag expires; a later one lets it run.

## Main definitions

* `NotPickedUp`: no delivery of an entry of the job has reached a worker.
* `ChecksInTime`: a look at the flag comes before the flag expires.

## Main results

* `cancelled_never_runs`: with all looks in time, a job cancelled while pending is never executed.
* `cancelled_runs`: a run in which the job is executed after its `DELETE` was answered.
-/

namespace CodeInterpreter

open Async

variable {d : Deployment}

/-- No delivery of an entry of the job has reached a worker. -/
def NotPickedUp (d : Deployment) (hist : History) (j : Str) : Prop :=
  ∀ o ∈ hist, ∀ x ∈ deliveriesOf o.event, Worker.jobIdOf d.py x.payload ≠ .ok j

/-- If the step answers a look at the cancellation flag of the job, it comes within the lifetime
of a flag that was set at the time `set`. -/
def ChecksInTime (j : Str) (set : ℕ) (s : Sys) (a : Act) : Prop :=
  ∀ p, s.next a = some (p, .existsCancel j) → s.now < set + 1000 * cancelTtlSeconds

/-- The flag was set at the time `set` or later, and it was never seen absent. -/
structure FlagSeen (j : Str) (set : ℕ) (s : Sys) : Prop where
  later : set ≤ s.now
  flag : ∃ expiry, s.world.cancel j = some ⟨(), some expiry⟩ ∧ set + 1000 * cancelTtlSeconds ≤ expiry
  seen : ∀ o ∈ s.hist, o.event ≠ ⟨.existsCancel j, .ok false⟩

/-- A job that was not picked up has had no look at its flag. -/
theorem no_check_before {s : Sys} (h : (system d).Reachable s) {j : Str}
    (hnew : NotPickedUp d s.hist j) : ∀ o ∈ s.hist, o.event.cmd ≠ .existsCancel j := by
  intro o ho hcmd
  obtain ⟨t, hperm, -⟩ := permitted_of_mem h ho
  rw [hcmd] at hperm
  obtain ⟨wid, m, hrole, hid⟩ := hperm
  obtain ⟨o', ho', x, hx, -, hpay, -⟩ :=
    message_delivered h ((System.reachable_originates h).2 o ho) hrole
  exact hnew o' ho' x hx (hpay ▸ hid)

/-- The flag lasts through a command. -/
theorem flag_exec {now set : ℕ} {w : World} {j : Str} (hlater : set ≤ now)
    (h : ∃ expiry, w.cancel j = some ⟨(), some expiry⟩ ∧ set + 1000 * cancelTtlSeconds ≤ expiry)
    (c : Cmd) (o : Oracle) :
    ∃ expiry, (World.exec now w c o).1.cancel j = some ⟨(), some expiry⟩ ∧
      set + 1000 * cancelTtlSeconds ≤ expiry := by
  cases exec_cancel c o with
  | cancel jobId record hw =>
    rw [hw]
    by_cases hj : j = jobId
    · subst hj
      refine ⟨now + 1000 * cancelTtlSeconds, Function.update_self .., ?_⟩
      omega
    · rw [Function.update_of_ne hj]
      exact h
  | other hc hw =>
    rw [hw]
    exact h

/-- A look at a flag that is there sees it. -/
theorem existsCancel_flag {s : Sys} {a : Act} {p : Process Cmd Reply Exc Role} {j : Str} {w : World}
    {r : Except Exc (Reply (.existsCancel j))} {b : Bool}
    (h : (system d).Answered s a p (.existsCancel j) w r b) {expiry : ℕ}
    (hflag : s.world.cancel j = some ⟨(), some expiry⟩) (hnow : s.now < expiry) :
    r ≠ .ok false := by
  rintro rfl
  rcases answered_cases h with ⟨-, -, e, he⟩ | ⟨o, -, -, hx⟩
  · cases he
  · have hval : false = (fetch s.now (s.world.cancel j)).isSome := hx false rfl
    have hlive : (⟨(), some expiry⟩ : Stored Unit).Live s.now := fun t ht =>
      Option.some.inj ht ▸ hnow
    rw [hflag, fetch, if_pos hlive] at hval
    cases hval

/-- With all looks in time, the flag of the job is never seen absent. -/
theorem flagSeen_run {s s' : Sys} {j : Str} {set : ℕ} (hs : (system d).Reachable s)
    (h : FlagSeen j set s) (hrun : (system d).Run (ChecksInTime j set) s s') :
    FlagSeen j set s' := by
  refine System.Run.invariant_reachable hrun hs ?_ h
  intro t a t' ht ih ha hst
  cases System.step_cases hst with
  | arrive q hq => exact ⟨ih.later, ih.flag, ih.seen⟩
  | answer i ans p c k w r b hi hp hr =>
    have hans : (system d).Answered t (.answer i ans) p c w r b := ⟨⟨i, ans, rfl, hi, hr⟩, k, hp⟩
    refine ⟨ih.later, ?_, fun o ho => ?_⟩
    · rcases answered_cases hans with ⟨rfl, -, -⟩ | ⟨o, rfl, -, -⟩
      · exact ih.flag
      · exact flag_exec ih.later ih.flag c o
    · rcases List.mem_cons.mp ho with rfl | ho
      · intro heq
        cases heq
        obtain ⟨expiry, hflag, hle⟩ := ih.flag
        have hnow := ha p hans.next_eq
        exact existsCancel_flag hans hflag (by omega) rfl
      · exact ih.seen o ho
  | crash i hi => exact ⟨ih.later, ih.flag, ih.seen⟩
  | tick n => exact ⟨ih.later.trans (Nat.le_add_right _ _), ih.flag, ih.seen⟩

/-- **A job cancelled while pending never runs**, as long as every look at its cancellation flag
comes before the flag expires: after the `DELETE` of a job that no worker has picked up committed,
no worker ever executes the job. -/
theorem cancelled_never_runs {s₁ s₂ s₃ : Sys} {i : ℕ} {o : Oracle}
    {p : Process Cmd Reply Exc Role} {j : Str} {record : JobRecord}
    (h₁ : (system d).Reachable s₁) (hnew : NotPickedUp d s₁.hist j)
    (hnext : s₁.next (.answer i (.reply o) : Act) = some (p, .cancelMulti j record))
    (hstep : (system d).step s₁ (.answer i (.reply o)) = some s₂)
    (hrun : (system d).Run (ChecksInTime j s₁.now) s₂ s₃) :
    ∀ o ∈ s₃.hist, ∀ request, o.event.cmd ≠ .execute request j := by
  have h₂ : (system d).Reachable s₂ := .step h₁ _ trivial hstep
  have hseen : FlagSeen j s₁.now s₂ := by
    obtain ⟨i', k, w, r, b, hans, rfl⟩ := System.step_answered hnext hstep
    refine ⟨le_rfl, ?_, fun o' ho' => ?_⟩
    · obtain ⟨i₀, ans, hact, -, hresp⟩ := hans.action
      cases hact
      cases hresp
      exact ⟨s₁.now + 1000 * cancelTtlSeconds, Function.update_self .., le_rfl⟩
    · rcases List.mem_cons.mp ho' with rfl | ho'
      · intro heq
        cases heq
      · intro heq
        exact no_check_before h₁ hnew o' ho' (by rw [heq])
  have h₃ : (system d).Reachable s₃ := hrun.reachable h₂
  intro o' ho' request hcmd
  obtain ⟨t, hperm, htraced⟩ := permitted_of_mem h₃ ho'
  rw [hcmd] at hperm
  obtain ⟨o₁, ho₁, -, heq, -⟩ := htraced.mem hperm.2
  exact (flagSeen_run h₂ hseen hrun).seen o₁ ho₁ heq

/-! ### Runs of the sample job -/

/-- The command cancels the job. -/
def Cmd.cancels (j : Str) : Cmd → Bool
  | .cancelMulti j' _ => j' == j
  | _ => false

/-- The command executes the job. -/
def Cmd.executes (j : Str) : Cmd → Bool
  | .execute _ j' => j' == j
  | _ => false

/-- The command tells the client that the job was cancelled. -/
def Cmd.confirms (j : Str) : Cmd → Bool
  | .respond (.cancelled j') => j' == j
  | _ => false

theorem Cmd.executes_iff {j : Str} {c : Cmd} :
    c.executes j = true ↔ ∃ request, c = .execute request j := by
  cases c <;> simp [Cmd.executes]

theorem Cmd.confirms_iff {j : Str} {c : Cmd} :
    c.confirms j = true ↔ c = .respond (.cancelled j) := by
  cases c with
  | respond r => cases r <;> simp [Cmd.confirms]
  | _ => simp [Cmd.confirms]

theorem next_of_cancels {s : Sys} {a : Act} {j : Str}
    (h : (s.next a).any (fun x => x.2.cancels j) = true) :
    ∃ p record, s.next a = some (p, .cancelMulti j record) := by
  obtain ⟨⟨p, c⟩, hx, hc⟩ := (Option.any_eq_true _ _).mp h
  cases c with
  | cancelMulti j' record =>
    obtain rfl : j' = j := by simpa [Cmd.cancels] using hc
    exact ⟨p, record, hx⟩
  | _ => cases hc

/-- The test for `ChecksInTime`. -/
def checksInTime (j : Str) (set : ℕ) (s : Sys) (a : Act) : Bool :=
  match s.next a with
  | some (_, .existsCancel j') => j' != j || decide (s.now < set + 1000 * cancelTtlSeconds)
  | _ => true

theorem checksInTime_sound {j : Str} {set : ℕ} {s : Sys} {a : Act}
    (h : checksInTime j set s a = true) : ChecksInTime j set s a := by
  intro p hp
  simpa [checksInTime, hp] using h

/-- The sample job is submitted, and its `DELETE` has read the record. -/
def beforeCancel : List Act :=
  submitSample ++ [.arrive (.deleteJob anna sampleId), ok 1]

/-- The `DELETE` is answered; a worker picks the job up and looks at its flag. -/
def afterCancel : List Act :=
  [ok 1, ok 1, .arrive (.consume (str "worker-1") true 1 (some 1)), ok 2, ok 2, ok 2, ok 2, ok 3]

/-- The same with a pause of two minutes, and the worker goes on to execute the job. -/
def afterPause : List Act := .tick 120000 :: afterCancel ++ [ok 3, ok 3, ok 3, ok 3, ok 3]

/-- The state before the `DELETE` of the sample job commits. -/
theorem reachable_beforeCancel : (system .default).Reachable (sampleRun beforeCancel) ∧
    NotPickedUp .default (sampleRun beforeCancel).hist sampleId ∧
    ∃ p record, (sampleRun beforeCancel).next (ok 1) = some (p, .cancelMulti sampleId record) :=
  ⟨reachable_sampleRun _ (by decide +kernel), by unfold NotPickedUp; decide +kernel,
    next_of_cancels (by decide +kernel)⟩

/-- The state after the `DELETE` of the sample job committed. -/
def cancelledSample : Sys := (system .default).run (sampleRun beforeCancel) [ok 1]

/-- A worker that looks at the flag within two minutes does not execute the job. -/
theorem cancelled_never_runs_sample :
    ∃ s : Sys, (system .default).Run (ChecksInTime sampleId 0) cancelledSample s ∧
      (∃ o ∈ s.hist, o.event.cmd.confirms sampleId = true) ∧
      ∀ o ∈ s.hist, ∀ request, o.event.cmd ≠ .execute request sampleId := by
  obtain ⟨hreach, hnew, p, record, hnext⟩ := reachable_beforeCancel
  have hstep : (system .default).step (sampleRun beforeCancel) (ok 1) = some cancelledSample :=
    System.step_eq_run (by decide +kernel)
  have hrun : (system .default).Run (ChecksInTime sampleId 0) cancelledSample
      ((system .default).run cancelledSample afterCancel) :=
    System.run_of_test (checksInTime sampleId 0) (fun _ _ => checksInTime_sound) afterCancel
      (by decide +kernel)
  exact ⟨_, hrun, by decide +kernel, cancelled_never_runs hreach hnew hnext hstep hrun⟩

/-- After a pause of two minutes a worker executes the job, although its `DELETE` was answered
while no worker had picked it up. -/
theorem cancelled_runs :
    ∃ s₁ s₂ s₃ : Sys, (system .default).Reachable s₁ ∧ NotPickedUp .default s₁.hist sampleId ∧
      (∃ p record, s₁.next (ok 1) = some (p, .cancelMulti sampleId record)) ∧
      (system .default).step s₁ (ok 1) = some s₂ ∧
      (system .default).Run (fun _ _ => True) s₂ s₃ ∧
      (∃ o ∈ s₃.hist, o.event.cmd = .respond (.cancelled sampleId)) ∧
      ∃ o ∈ s₃.hist, ∃ request, o.event.cmd = .execute request sampleId := by
  obtain ⟨hreach, hnew, hnext⟩ := reachable_beforeCancel
  have hstep : (system .default).step (sampleRun beforeCancel) (ok 1) = some cancelledSample :=
    System.step_eq_run (by decide +kernel)
  have hrun : (system .default).Run (fun _ _ => True) cancelledSample
      ((system .default).run cancelledSample afterPause) :=
    System.run_of_test (fun _ _ => true) (fun _ _ _ => trivial) afterPause (by decide +kernel)
  have hconf : ∃ o ∈ ((system .default).run cancelledSample afterPause).hist,
      o.event.cmd.confirms sampleId = true := by decide +kernel
  have hexec : ∃ o ∈ ((system .default).run cancelledSample afterPause).hist,
      o.event.cmd.executes sampleId = true := by decide +kernel
  refine ⟨_, _, _, hreach, hnew, hnext, hstep, hrun, ?_, ?_⟩
  · obtain ⟨o, ho, hc⟩ := hconf
    exact ⟨o, ho, Cmd.confirms_iff.mp hc⟩
  · obtain ⟨o, ho, hc⟩ := hexec
    exact ⟨o, ho, Cmd.executes_iff.mp hc⟩

end CodeInterpreter
