import CodeInterpreter.Executor.Completed
import CodeInterpreter.System

/-!
# The result of the executor

What one delivery stores when `executor.execute` has returned a result and only steps around the
execution fail: the polls of the cancellation flag, the last message on the channel of the job,
the release of the slot and the acknowledgement. The `try` block of `_process` covers these steps
too, except for the release of the slot, which is best effort. So a failure of one of them is
recorded as a failure of the job, and the result of the executor is not stored or is overwritten.

## Main definitions

* `OnlyAuxiliaryFail`: the runs in question.
* `Summary`: the results a run stored, its executions, and whether a step other than the release
  of the slot failed.

## Main results

* `process_does`: what a delivery has stored at its end.
* `result_survives_iff`: when it has stored nothing but the result of the executor.
* `stored_executed_iff`: the same for a result that `SandboxExecutor.execute` returned.
-/

namespace CodeInterpreter.Worker

open Async

variable {α β : Type} {t : Trace}

/-- The steps around an execution: the last message on the channel, the release of the slot and
the acknowledgement. -/
def auxiliary : Cmd → Bool
  | .publish _ (.done _ _ _ _ _) => true
  | .zrem _ _ | .xack _ | .xdel _ => true
  | _ => false

/-- An answer that a command can get when only auxiliary steps fail. No Redis command raises
`DockerUnavailableError`. -/
def MayGet (c : Cmd) (a : Except Exc (Reply c)) : Prop :=
  ∀ e, a = .error e → auxiliary c = true ∧ isDockerUnavailable e = false

/-- The commands that failed are auxiliary. -/
def OnlyAuxiliaryFail (t : Trace) : Prop := ∀ x ∈ t, MayGet x.cmd x.answer

/-- Under this contract only auxiliary steps fail. -/
def auxiliaryContract : Contract Cmd Reply Exc where
  allows _ _ := True
  answers _ := MayGet

theorem admitted_of_onlyAuxiliaryFail {t' : Trace} (h : OnlyAuxiliaryFail t') :
    Program.Admitted auxiliaryContract t t' :=
  fun x _ _ hx => h x (hx.subset List.mem_cons_self)

/-! ### Summaries -/

/-- The result that a command stores. -/
def storedBy : Event Cmd Reply Exc → Option ExecutionResult
  | ⟨.setResult _ r, _⟩ => some r
  | _ => none

/-- What an execution was answered with. -/
def executionOf : Event Cmd Reply Exc → Option Execution
  | ⟨.execute _ _, .ok x⟩ => some x
  | _ => none

/-- The command failed and is not the release of a slot. -/
def failure : Event Cmd Reply Exc → Bool
  | ⟨.zrem _ _, _⟩ => false
  | ⟨_, .error _⟩ => true
  | _ => false

/-- The results a run has stored and its executions, newest first, and whether a step other than
the release of the slot failed. -/
structure Summary where
  stored : List ExecutionResult
  executions : List Execution
  failing : Bool

/-- The summary of a trace. -/
def summary (t : Trace) : Summary := ⟨t.filterMap storedBy, t.filterMap executionOf, t.any failure⟩

theorem mem_stored {r : ExecutionResult} :
    r ∈ (summary t).stored ↔ ∃ x ∈ t, ∃ j, x.cmd = .setResult j r := by
  simp only [summary, List.mem_filterMap]
  refine exists_congr fun x => and_congr_right fun _ => ?_
  obtain ⟨c, a⟩ := x
  cases c <;> simp [storedBy]

theorem stored_forall_iff {r : ExecutionResult} :
    (∀ x ∈ t, ∀ j r', x.cmd = .setResult j r' → r' = r) ↔ ∀ r' ∈ (summary t).stored, r' = r := by
  refine ⟨fun h r' hr' => ?_, fun h x hx j r' hc => h r' (mem_stored.mpr ⟨x, hx, j, hc⟩)⟩
  obtain ⟨x, hx, j, hc⟩ := mem_stored.mp hr'
  exact h x hx j r' hc

theorem mem_executions {x : Execution} :
    x ∈ (summary t).executions ↔ ∃ request j, ⟨.execute request j, .ok x⟩ ∈ t := by
  simp only [summary, List.mem_filterMap]
  constructor
  · rintro ⟨⟨c, a⟩, hmem, hx⟩
    cases c with
    | execute request j =>
      cases a with
      | error e => cases hx
      | ok y =>
        cases hx
        exact ⟨request, j, hmem⟩
    | _ => cases hx
  · rintro ⟨request, j, hmem⟩
    exact ⟨_, hmem, rfl⟩

theorem failing_eq_false : (summary t).failing = false ↔
    ∀ x ∈ t, ∀ e, x.answer = .error e → ∃ u j, x.cmd = .zrem u j := by
  simp only [summary, List.any_eq_false]
  refine forall_congr' fun x => imp_congr_right fun _ => ?_
  obtain ⟨c, a⟩ := x
  cases c <;> cases a <;> simp [failure]

/-! ### Rules -/

/-- The program ends with an outcome and a summary that satisfy `Q`. -/
def Does (p : Prog α) (t : Trace) (Q : Except Exc α → Summary → Prop) : Prop :=
  p.wp auxiliaryContract (fun out t' => Q out (summary t')) t

theorem Does.mono {p : Prog α} {Q Q' : Except Exc α → Summary → Prop} (h : Does p t Q)
    (hQ : ∀ out s, Q out s → Q' out s) : Does p t Q' :=
  Program.wp_mono h fun out t' => hQ out (summary t')

theorem does_bind {p : Prog α} {f : α → Prog β} {M : Except Exc α → Summary → Prop}
    {Q : Except Exc β → Summary → Prop} (hp : Does p t M)
    (hok : ∀ a t', M (.ok a) (summary t') → Does (f a) t' Q)
    (herr : ∀ e s, M (.error e) s → Q (.error e) s) : Does (p >>= f) t Q :=
  Program.wp_bind_of hp (fun a t' _ => hok a t') fun e t' _ => herr e (summary t')

theorem does_tryCatch {p : Prog α} {h : Exc → Prog α} {M Q : Except Exc α → Summary → Prop}
    (hp : Does p t M) (hok : ∀ a s, M (.ok a) s → Q (.ok a) s)
    (herr : ∀ e t', M (.error e) (summary t') → Does (h e) t' Q) : Does (tryCatch p h) t Q :=
  Program.wp_tryCatch_of hp (fun a t' _ => hok a (summary t')) fun e t' _ => herr e t'

theorem does_ofExcept (x : Except Exc α) {Q : Except Exc α → Summary → Prop}
    (h : Q x (summary t)) : Does (Program.ofExcept x) t Q := by
  rw [Does, Program.wp_ofExcept]
  exact h

/-- The program succeeds and leaves the summary as it was. -/
def Quiet (s : Summary) (out : Except Exc α) (s' : Summary) : Prop := (∃ a, out = .ok a) ∧ s' = s

/-- The program succeeds and leaves the summary as it was, or it fails. -/
def MayFail (s : Summary) (out : Except Exc α) (s' : Summary) : Prop :=
  ((∃ a, out = .ok a) ∧ s' = s) ∨
    ((∃ e, out = .error e ∧ isDockerUnavailable e = false) ∧ s' = { s with failing := true })

theorem not_quiet_error {s s' : Summary} {e : Exc} : ¬ Quiet s (.error e : Except Exc α) s' := by
  simp [Quiet]

/-- Sequencing after a program that succeeds with a known summary. -/
theorem does_quiet_bind {p : Prog α} {f : α → Prog β} {s : Summary}
    {Q : Except Exc β → Summary → Prop} (hp : Does p t (Quiet s))
    (hok : ∀ a t', summary t' = s → Does (f a) t' Q) : Does (p >>= f) t Q :=
  does_bind hp (fun a t' h => hok a t' h.2) fun _ _ h => absurd h not_quiet_error

/-- A command that is neither auxiliary nor a store nor an execution. -/
theorem does_quiet {c : Cmd} (haux : auxiliary c = false)
    (hsum : ∀ a, summary (⟨c, .ok a⟩ :: t) = summary t) : Does (issue c) t (Quiet (summary t)) := by
  rw [Does, Program.wp_perform]
  refine ⟨trivial, fun a ha => ?_⟩
  cases a with
  | ok v => exact ⟨⟨v, rfl⟩, hsum v⟩
  | error e => exact absurd (ha e rfl).1 (by simp [haux])

/-- An auxiliary command other than the release of a slot. -/
theorem does_mayFail {c : Cmd} (hok : ∀ a, summary (⟨c, .ok a⟩ :: t) = summary t)
    (herr : ∀ e, summary (⟨c, .error e⟩ :: t) = { summary t with failing := true }) :
    Does (issue c) t (MayFail (summary t)) := by
  rw [Does, Program.wp_perform]
  refine ⟨trivial, fun a ha => ?_⟩
  cases a with
  | ok v => exact .inl ⟨⟨v, rfl⟩, hok v⟩
  | error e => exact .inr ⟨⟨e, rfl, (ha e rfl).2⟩, herr e⟩

/-! ### The steps of a delivery -/

variable {cfg : WorkerConfig} {jobId : Str}

theorem patchRecord_quiet (fields : JobRecord → JobRecord) :
    Does (patchRecord jobId fields) t (Quiet (summary t)) := by
  refine does_quiet_bind (does_quiet rfl fun _ => rfl) fun found t₁ h₁ => ?_
  cases found with
  | none => exact ⟨⟨_, rfl⟩, h₁⟩
  | some record =>
    refine does_quiet_bind (does_quiet rfl fun _ => rfl) fun _ t₂ h₂ => ?_
    exact ⟨⟨_, rfl⟩, h₂.trans h₁⟩

theorem setRunning_quiet (workerId : Str) :
    Does (setRunning jobId workerId) t (Quiet (summary t)) :=
  does_quiet_bind (patchRecord_quiet _) fun _ _ h => ⟨⟨_, rfl⟩, h⟩

theorem archive_quiet (r : ExecutionResult) :
    Does (archive cfg jobId r) t (Quiet (summary t)) := by
  unfold archive
  split
  · exact does_tryCatch (does_quiet rfl fun _ => rfl) (fun _ _ h => h) fun _ _ h =>
      absurd h not_quiet_error
  · exact ⟨⟨_, rfl⟩, rfl⟩

/-- The summary after one more result was stored. -/
def Summary.store (s : Summary) (r : ExecutionResult) : Summary := { s with stored := r :: s.stored }

/-- `store_terminal` succeeds and stores its result. -/
theorem storeTerminal_does (r : ExecutionResult) :
    Does (storeTerminal cfg jobId r) t (Quiet ((summary t).store r)) := by
  refine does_quiet_bind (archive_quiet r) fun _ t₁ h₁ => ?_
  have hset : Does (issue (.setResult jobId r)) t₁ (Quiet ((summary t₁).store r)) := by
    rw [Does, Program.wp_perform]
    refine ⟨trivial, fun a ha => ?_⟩
    cases a with
    | ok v => exact ⟨⟨v, rfl⟩, rfl⟩
    | error e => cases (ha e rfl).1
  refine does_quiet_bind hset fun _ t₂ h₂ => ?_
  refine does_quiet_bind (patchRecord_quiet _) fun _ t₃ h₃ => ⟨⟨_, rfl⟩, ?_⟩
  rw [h₃, h₂, h₁]

theorem publishDone_does (r : ExecutionResult) :
    Does (publishDone jobId r) t (MayFail (summary t)) :=
  does_mayFail (fun _ => rfl) fun _ => rfl

theorem releaseSlot_quiet (userId : Str) :
    Does (releaseSlot userId jobId) t (Quiet (summary t)) := by
  unfold releaseSlot
  split
  · exact ⟨⟨_, rfl⟩, rfl⟩
  · have hzrem : Does (issue (.zrem userId jobId)) t fun _ s => s = summary t := by
      rw [Does, Program.wp_perform]
      exact ⟨trivial, fun _ _ => rfl⟩
    exact does_tryCatch hzrem (fun _ _ h => ⟨⟨_, rfl⟩, h⟩) fun _ _ h => ⟨⟨_, rfl⟩, h⟩

/-- Two steps that may fail, one after the other. -/
theorem does_mayFail_bind {p : Prog α} {q : Prog β} (hp : Does p t (MayFail (summary t)))
    (hq : ∀ t', Does q t' (MayFail (summary t'))) :
    Does (p >>= fun _ => q) t (MayFail (summary t)) := by
  refine does_bind hp (fun a t' h => ?_) fun e s h => ?_
  · rcases h with ⟨-, h⟩ | ⟨⟨e, he, -⟩, -⟩
    · rw [← h]
      exact hq t'
    · cases he
  · rcases h with ⟨⟨a, ha⟩, -⟩ | ⟨⟨e', he, hno⟩, h⟩
    · cases ha
    · cases he
      exact .inr ⟨⟨e, rfl, hno⟩, h⟩

theorem ack_does (msgId : ℕ) : Does (ack msgId) t (MayFail (summary t)) :=
  does_mayFail_bind (does_mayFail (fun _ => rfl) fun _ => rfl) fun _ =>
    does_mayFail (fun _ => rfl) fun _ => rfl

/-! ### A delivery that records a failure -/

/-- What no further step takes back. -/
structure Later (s s' : Summary) : Prop where
  stored : ∀ r ∈ s.stored, r ∈ s'.stored
  executions : s'.executions = s.executions
  failing : s.failing = true → s'.failing = true

theorem Later.refl (s : Summary) : Later s s := ⟨fun _ h => h, rfl, fun h => h⟩

theorem Later.trans {s s' s'' : Summary} (h : Later s s') (h' : Later s' s'') : Later s s'' :=
  ⟨fun r hr => h'.stored r (h.stored r hr), h'.executions.trans h.executions,
    fun hf => h'.failing (h.failing hf)⟩

theorem later_of_quiet {s s' : Summary} {out : Except Exc α} (h : Quiet s out s') : Later s s' :=
  h.2 ▸ .refl s

theorem later_of_mayFail {s s' : Summary} {out : Except Exc α} (h : MayFail s out s') :
    Later s s' := by
  rcases h with ⟨-, rfl⟩ | ⟨-, rfl⟩
  · exact .refl s'
  · exact ⟨fun _ h => h, rfl, fun _ => rfl⟩

/-- Sequencing, when only the later summary matters. -/
theorem later_bind {p : Prog α} {f : α → Prog β} {s : Summary}
    (hp : Does p t fun _ s' => Later s s')
    (hf : ∀ a t', Does (f a) t' fun _ s' => Later (summary t') s') :
    Does (p >>= f) t fun _ s' => Later s s' :=
  does_bind hp (fun a t' h => (hf a t').mono fun _ _ h' => h.trans h') fun _ _ h => h

theorem releaseSlot_later (userId : Str) :
    Does (releaseSlot userId jobId) t fun _ s => Later (summary t) s :=
  (releaseSlot_quiet userId).mono fun _ _ => later_of_quiet

theorem ack_later (msgId : ℕ) : Does (ack msgId) t fun _ s => Later (summary t) s :=
  (ack_does msgId).mono fun _ _ => later_of_mayFail

/-- `_finalize_failed` and `_finalize_cancelled` store a result of their own. -/
theorem finalize_later (r : ExecutionResult) :
    Does (do storeTerminal cfg jobId r; publishDone jobId r) t fun _ s =>
      Later ((summary t).store r) s :=
  later_bind ((storeTerminal_does r).mono fun _ _ => later_of_quiet) fun _ _ =>
    (publishDone_does r).mono fun _ _ => later_of_mayFail

theorem finalizeFailed_later (e : Exc) : Does (finalizeFailed cfg jobId e) t fun _ s =>
    Later ((summary t).store (failedResult jobId e)) s :=
  finalize_later _

/-- The handler of the `try` block stores the failure, unless Docker is unavailable. -/
theorem onFailure_later {userId : Str} {msgId : ℕ} {e : Exc} (he : isDockerUnavailable e = false) :
    Does (onFailure cfg userId jobId msgId e) t fun _ s =>
      Later ((summary t).store (failedResult jobId e)) s := by
  rw [onFailure, he]
  exact later_bind (finalizeFailed_later e) fun _ _ =>
    later_bind (releaseSlot_later userId) fun _ _ => ack_later msgId

/-! ### A delivery that executes -/

/-- The summary after an execution. -/
def Summary.execute (s : Summary) (x : Execution) : Summary :=
  { s with executions := x :: s.executions }

/-- The ends of `_run_job` and of the `try` block around it: the watcher has raised, the execution
has raised, the result is stored, or it is stored and a later step has failed. -/
inductive Ran (s : Summary) (x : Execution) : Except Exc Unit → Summary → Prop
  | watcher (e : Exc) (h : watchCancel x.polls = .error e) : Ran s x (.error e) (s.execute x)
  | raised (e : Exc) (h : x.outcome = .error e) : Ran s x (.error e) (s.execute x)
  | stored (r : ExecutionResult) (hw : watchCancel x.polls = .ok ()) (h : x.outcome = .ok r) :
      Ran s x (.ok ()) ((s.execute x).store r)
  | failed (r : ExecutionResult) (h : x.outcome = .ok r) (e : Exc)
      (he : isDockerUnavailable e = false) :
      Ran s x (.error e) { (s.execute x).store r with failing := true }

theorem ran_of_mayFail {s s' : Summary} {x : Execution} {r : ExecutionResult}
    {out : Except Exc Unit} (hw : watchCancel x.polls = .ok ()) (hx : x.outcome = .ok r)
    (h : MayFail ((s.execute x).store r) out s') : Ran s x out s' := by
  rcases h with ⟨⟨a, rfl⟩, rfl⟩ | ⟨⟨e, rfl, he⟩, rfl⟩
  · exact .stored r hw hx
  · exact .failed r hx e he

theorem execute_does (request : ExecutionRequest) :
    Does (issue (.execute request jobId)) t fun out s =>
      ∃ x : Execution, out = .ok x ∧ s = (summary t).execute x := by
  rw [Does, Program.wp_perform]
  refine ⟨trivial, fun a ha => ?_⟩
  cases a with
  | ok x => exact ⟨x, rfl, rfl⟩
  | error e => cases (ha e rfl).1

theorem runJob_does (request : ExecutionRequest) :
    Does (runJob cfg jobId request) t fun out s => ∃ x, Ran (summary t) x out s := by
  refine does_quiet_bind (does_quiet rfl fun _ => rfl) fun _ t₁ h₁ => ?_
  refine does_quiet_bind (setRunning_quiet _) fun _ t₂ h₂ => ?_
  refine does_quiet_bind (does_quiet rfl fun _ => rfl) fun _ t₃ h₃ => ?_
  refine does_bind (execute_does request) (fun x t₄ h₄ => ?_) fun e s h => ?_
  · obtain ⟨x', hx', h₄⟩ := h₄
    cases hx'
    rw [h₃, h₂, h₁] at h₄
    refine does_bind (M := fun out s => out = watchCancel x.polls ∧ s = (summary t).execute x)
      (does_ofExcept _ ⟨rfl, h₄⟩) (fun _ t₅ h₅ => ?_) fun e s h => ?_
    · refine does_quiet_bind (does_quiet rfl fun _ => rfl) fun _ t₆ h₆ => ?_
      refine does_bind (M := fun out s => out = x.outcome ∧ s = (summary t).execute x)
        (does_ofExcept _ ⟨rfl, h₆.trans h₅.2⟩) (fun r t₇ h₇ => ?_) fun e s h => ?_
      · refine does_quiet_bind (storeTerminal_does r) fun _ t₈ h₈ => ?_
        refine (publishDone_does r).mono fun out s h => ⟨x, ?_⟩
        rw [h₈, h₇.2] at h
        exact ran_of_mayFail h₅.1.symm h₇.1.symm h
      · exact ⟨x, h.2 ▸ .raised e h.1.symm⟩
    · exact ⟨x, h.2 ▸ .watcher e h.1.symm⟩
  · obtain ⟨x, hx, -⟩ := h
    cases hx

theorem runAndAck_does (userId : Str) (request : ExecutionRequest) (msgId : ℕ) :
    Does (runAndAck cfg userId jobId request msgId) t fun out s => ∃ x, Ran (summary t) x out s := by
  refine does_bind (runJob_does request) (fun _ t₁ h₁ => ?_) fun e s h => h
  refine does_quiet_bind (releaseSlot_quiet userId) fun _ t₂ h₂ => ?_
  refine (ack_does msgId).mono fun out s h => ?_
  obtain ⟨x, hran⟩ := h₁
  generalize hs : summary t₁ = s₁ at hran
  cases hran with
  | stored r hw hx =>
    rw [h₂, hs] at h
    exact ⟨x, ran_of_mayFail hw hx h⟩

/-! ### The whole delivery -/

/-- A watcher that raises has seen a poll fail. -/
theorem poll_of_watchCancel {polls : List Poll} {e : Exc} (h : watchCancel polls = .error e) :
    .error e ∈ polls := by
  induction polls with
  | nil => cases h
  | cons p rest ih =>
    cases p with
    | flag b =>
      cases b with
      | true => cases h
      | false => exact List.mem_cons_of_mem _ (ih h)
    | error e' =>
      cases h
      exact List.mem_cons_self

/-- What a delivery that executed the job has stored at its end: nothing but the result of the
execution, or also a failure, when the watcher or another step has failed. -/
def Stores (s : Summary) (x : Execution) : Prop :=
  ∀ r, x.outcome = .ok r → (∀ e, .error e ∈ x.polls → isDockerUnavailable e = false) →
    (watchCancel x.polls = .ok () ∧ s.failing = false ∧ s.stored = [r]) ∨
    ((watchCancel x.polls ≠ .ok () ∨ s.failing = true) ∧ ∃ j e, failedResult j e ∈ s.stored)

/-- The delivery has not executed the job, or it has done so once. -/
def Delivered (s : Summary) : Prop := s.executions = [] ∨ ∃ x, s.executions = [x] ∧ Stores s x

theorem later_of_failed {s s' : Summary} {e : Exc} (h : Later (s.store (failedResult jobId e)) s') :
    ∃ j e, failedResult j e ∈ s'.stored := ⟨jobId, e, h.stored _ List.mem_cons_self⟩

/-- The handlers of the `try` block record the failure of a step after the execution. -/
theorem onFailure_delivered {userId : Str} {msgId : ℕ} {e : Exc} {x : Execution}
    (hx : (summary t).executions = [x])
    (hstep : ∀ r, x.outcome = .ok r → (∀ e, .error e ∈ x.polls → isDockerUnavailable e = false) →
      isDockerUnavailable e = false ∧
        (watchCancel x.polls ≠ .ok () ∨ (summary t).failing = true)) :
    Does (onFailure cfg userId jobId msgId e) t fun _ s => Delivered s := by
  by_cases he : isDockerUnavailable e = true
  · rw [onFailure, if_pos he]
    refine .inr ⟨x, hx, fun r hr hpolls => ?_⟩
    rw [(hstep r hr hpolls).1] at he
    cases he
  · refine (onFailure_later (Bool.eq_false_iff.mpr he)).mono fun _ s h => ?_
    refine .inr ⟨x, h.executions.trans hx, fun r hr hpolls => .inr ⟨?_, later_of_failed h⟩⟩
    exact (hstep r hr hpolls).2.imp_right h.failing

/-- The `try` block with its handlers. -/
theorem tryBlock_delivered {userId : Str} {request : ExecutionRequest} {msgId : ℕ}
    (ht : summary t = ⟨[], [], false⟩) :
    Does (tryCatch (runAndAck cfg userId jobId request msgId) (onFailure cfg userId jobId msgId)) t
      fun _ s => Delivered s := by
  refine does_tryCatch (runAndAck_does userId request msgId) (fun _ s h => ?_) fun e t' h => ?_
  · obtain ⟨x, hran⟩ := h
    rw [ht] at hran
    cases hran with
    | stored r hw hx =>
      refine .inr ⟨x, rfl, fun r' hr' _ => .inl ⟨hw, rfl, ?_⟩⟩
      rw [hx] at hr'
      cases hr'
      rfl
  · obtain ⟨x, hran⟩ := h
    rw [ht] at hran
    generalize hs : summary t' = s' at hran
    cases hran with
    | watcher _ hw =>
      refine onFailure_delivered (x := x) (congrArg Summary.executions hs) fun r _ hpolls => ?_
      refine ⟨hpolls e (poll_of_watchCancel hw), .inl fun hok => ?_⟩
      cases hw.symm.trans hok
    | raised _ hx =>
      refine onFailure_delivered (x := x) (congrArg Summary.executions hs) fun r hr _ => ?_
      cases hx.symm.trans hr
    | failed r _ _ he =>
      exact onFailure_delivered (x := x) (congrArg Summary.executions hs) fun _ _ _ =>
        ⟨he, .inr (congrArg Summary.failing hs)⟩

/-- A part of `_process` that executes nothing. -/
theorem delivered_of_later {s s' : Summary} (hs : s.executions = []) (h : Later s s') :
    Delivered s' := .inl (h.executions.trans hs)

theorem processRequest_delivered {userId : Str} {request : ExecutionRequest} {msgId : ℕ}
    (ht : summary t = ⟨[], [], false⟩) :
    Does (processRequest cfg userId jobId request msgId) t fun _ s => Delivered s := by
  refine does_quiet_bind (does_quiet rfl fun _ => rfl) fun cancelled t₁ h₁ => ?_
  rw [ht] at h₁
  cases cancelled with
  | true =>
    have hrest : Does (do
        finalizeCancelled cfg jobId; releaseSlot userId jobId; ack msgId) t₁ fun _ s =>
          Later ((summary t₁).store (cancelledResult jobId)) s :=
      later_bind (finalize_later _) fun _ _ =>
        later_bind (releaseSlot_later userId) fun _ _ => ack_later msgId
    exact hrest.mono fun _ s => delivered_of_later (congrArg Summary.executions h₁)
  | false => exact tryBlock_delivered h₁

theorem deadLetter_later (message : QueueMessage) (reason : Str) :
    Does (deadLetter message reason) t fun _ s => Later (summary t) s := by
  refine later_bind ((does_quiet rfl fun _ => rfl).mono fun _ _ => later_of_quiet) fun _ _ => ?_
  exact ack_later message.msgId

theorem processExhausted_delivered {userId : Str} {message : QueueMessage}
    (ht : summary t = ⟨[], [], false⟩) :
    Does (processExhausted cfg userId jobId message) t fun _ s => Delivered s := by
  refine Does.mono (later_bind (finalizeFailed_later _) fun _ _ =>
    later_bind (releaseSlot_later userId) fun _ _ => deadLetter_later message _) fun _ s => ?_
  exact delivered_of_later (congrArg Summary.executions ht)

theorem processMalformed_delivered {userId : Str} {message : QueueMessage}
    (ht : summary t = ⟨[], [], false⟩) :
    Does (processMalformed cfg userId jobId message) t fun _ s => Delivered s := by
  have hrest : ∀ t', (summary t').executions = [] →
      Does (do releaseSlot userId jobId; deadLetter message (str "malformed_payload")) t'
        fun _ s => Delivered s := fun t' ht' =>
    (later_bind (releaseSlot_later userId) fun _ _ => deadLetter_later message _).mono
      fun _ s => delivered_of_later ht'
  unfold processMalformed
  split
  · exact hrest t (congrArg Summary.executions ht)
  · refine does_bind (finalizeFailed_later _) (fun _ t' h => hrest t' ?_) fun _ s h => ?_
    · exact h.executions.trans (congrArg Summary.executions ht)
    · exact .inl (h.executions.trans (congrArg Summary.executions ht))

/-- **What a delivery has stored at its end.** -/
theorem process_does (py : Python) (cfg : WorkerConfig) (message : QueueMessage) :
    Does (process py cfg message) [] fun _ s => Delivered s := by
  refine does_bind (M := fun _ s => s = summary []) (does_ofExcept _ rfl) (fun jobId t₁ h₁ => ?_)
    fun _ s h => .inl (h ▸ rfl)
  refine does_bind (M := fun _ s => s = summary []) (does_ofExcept _ h₁) (fun userId t₂ h₂ => ?_)
    fun _ s h => .inl (h ▸ rfl)
  split
  · exact processExhausted_delivered h₂
  · split
    · exact processRequest_delivered h₂
    · split
      · exact processMalformed_delivered h₂
      · exact .inl (h₂ ▸ rfl)

/-- The executor reports `FAILED` for a killed container only, with `oom_killed` set; so a failure
that the handlers store is never its result. -/
theorem stored_eq_iff {s : Summary} {polls : List Poll} {r : ExecutionResult} (hdone : Delivered s)
    (hmem : ⟨polls, .ok r⟩ ∈ s.executions)
    (hpolls : ∀ e, .error e ∈ polls → isDockerUnavailable e = false)
    (hr : r.status = .failed → r.oomKilled = true) :
    (∀ r' ∈ s.stored, r' = r) ↔ watchCancel polls = .ok () ∧ s.failing = false := by
  rcases hdone with hnone | ⟨x, hone, hstores⟩
  · rw [hnone] at hmem
    cases hmem
  · rw [hone] at hmem
    obtain rfl := List.mem_singleton.mp hmem
    rcases hstores r rfl hpolls with ⟨hw, hf, hst⟩ | ⟨hbad, j, e, hfailed⟩
    · refine iff_of_true (fun r' hr' => ?_) ⟨hw, hf⟩
      rw [hst] at hr'
      exact List.mem_singleton.mp hr'
    · refine iff_of_false (fun h => ?_) fun h => ?_
      · have hkilled := hr (h _ hfailed ▸ rfl)
        rw [← h _ hfailed] at hkilled
        cases hkilled
      · rcases hbad with hw | hf
        · exact hw h.1
        · rw [h.2] at hf
          cases hf

/-- A delivery whose execution is a run of `SandboxExecutor.execute`: it stores nothing but the
result of that run exactly when the watcher has not raised and no step but the release of the slot
has failed. -/
theorem stored_executed_iff {py : Python} {settings : Executor.Settings} {message : QueueMessage}
    {out : Except Exc Unit} {request : ExecutionRequest} {polls : List Poll} {r : ExecutionResult}
    {t' : Executor.Trace}
    (hrun : Program.Runs (process py cfg message) [] out t)
    (hexec : ⟨.execute request jobId, .ok ⟨polls, .ok r⟩⟩ ∈ t) (haux : OnlyAuxiliaryFail t)
    (hpolls : ∀ e, .error e ∈ polls → isDockerUnavailable e = false)
    (hsandbox : Program.Runs (Executor.execute py settings request jobId true) [] (.ok r) t') :
    (∀ r' ∈ (summary t).stored, r' = r) ↔
      watchCancel polls = .ok () ∧ (summary t).failing = false := by
  have hdone : Delivered (summary t) :=
    hrun.of_wp (process_does py cfg message) (admitted_of_onlyAuxiliaryFail haux)
  exact stored_eq_iff hdone (mem_executions.mpr ⟨request, jobId, hexec⟩) hpolls
    (Executor.execute_failed py settings hsandbox)

/-- **When the result of the executor survives.** In a delivery whose execution returned `r` and in
which only auxiliary steps fail, every result that is stored is `r` exactly when no poll of the
cancellation flag has made the watcher raise and only the release of the slot has failed. The
executor reports `FAILED` for a killed container only, with `oom_killed` set. -/
theorem result_survives_iff {py : Python} {cfg : WorkerConfig} {message : QueueMessage}
    {out : Except Exc Unit} (hrun : Program.Runs (process py cfg message) [] out t)
    {request : ExecutionRequest} {jobId : Str} {polls : List Poll} {r : ExecutionResult}
    (hexec : ⟨.execute request jobId, .ok ⟨polls, .ok r⟩⟩ ∈ t) (haux : OnlyAuxiliaryFail t)
    (hpolls : ∀ e, .error e ∈ polls → isDockerUnavailable e = false)
    (hr : r.status = .failed → r.oomKilled = true) :
    (∀ x ∈ t, ∀ j r', x.cmd = .setResult j r' → r' = r) ↔
      watchCancel polls = .ok () ∧ ∀ x ∈ t, ∀ e, x.answer = .error e → ∃ u j, x.cmd = .zrem u j := by
  have hdone : Delivered (summary t) :=
    hrun.of_wp (process_does py cfg message) (admitted_of_onlyAuxiliaryFail haux)
  rw [stored_forall_iff, ← failing_eq_false]
  exact stored_eq_iff hdone (mem_executions.mpr ⟨request, jobId, hexec⟩) hpolls hr

/-! ### Deliveries of the sample job -/

instance (c : Cmd) (a : Except Exc (Reply c)) : Decidable (MayGet c a) :=
  match a with
  | .ok _ => isTrue fun _ h => by cases h
  | .error e => decidable_of_iff (auxiliary c = true ∧ isDockerUnavailable e = false)
      ⟨fun h _ he => Except.error.inj he ▸ h, fun h => h e rfl⟩

instance (t : Trace) : Decidable (OnlyAuxiliaryFail t) :=
  inferInstanceAs (Decidable (∀ x ∈ t, MayGet x.cmd x.answer))

/-- The first delivery of the sample job. -/
def sampleMessage : QueueMessage := ⟨1, (sampleSubmission sampleId).payload.toValue, 1, 1⟩

/-- Redis after the sample job was submitted; the commands of the given kind fail. -/
def sampleEnv (fails : Cmd → Bool) (_ : Trace) (c : Cmd) : Except Exc (Reply c) :=
  if fails c then .error .redisResponse
  else .ok (World.exec 0 (sampleRun submitSample).world c { execution := ⟨[], .ok sampleResult⟩ }).2

/-- The first delivery of the sample job, when the commands of the given kind fail. -/
def sampleDelivery (fails : Cmd → Bool) : Except Exc Unit × Trace :=
  (process Deployment.default.py (Deployment.default.worker (str "worker-1")) sampleMessage).play
    (sampleEnv fails) []

theorem sampleDelivery_runs (fails : Cmd → Bool) :
    Program.Runs (process Deployment.default.py (Deployment.default.worker (str "worker-1"))
      sampleMessage) [] (sampleDelivery fails).1 (sampleDelivery fails).2 :=
  Program.runs_play _ _ _

/-- The release of a slot. -/
def isZrem : Cmd → Bool
  | .zrem _ _ => true
  | _ => false

/-- The last message on the channel of a job. -/
def isDone : Cmd → Bool
  | .publish _ (.done _ _ _ _ _) => true
  | _ => false

/-- The slot cannot be released: the result survives. -/
theorem result_survives_iff_sample :
    ∃ (out : Except Exc Unit) (t : Trace),
      Program.Runs (process Deployment.default.py (Deployment.default.worker (str "worker-1"))
        sampleMessage) [] out t ∧
      t.any (fun x => isZrem x.cmd && !x.answer.isOk) = true ∧ OnlyAuxiliaryFail t ∧
      ∀ x ∈ t, ∀ j r', x.cmd = .setResult j r' → r' = sampleResult := by
  obtain ⟨request, j, hexec⟩ := mem_executions.mp (show ⟨[], .ok sampleResult⟩ ∈
    (summary (sampleDelivery isZrem).2).executions by decide +kernel)
  have haux : OnlyAuxiliaryFail (sampleDelivery isZrem).2 := by decide +kernel
  have hquiet : (summary (sampleDelivery isZrem).2).failing = false := by decide +kernel
  refine ⟨_, _, sampleDelivery_runs isZrem, by decide +kernel, haux, ?_⟩
  exact (result_survives_iff (sampleDelivery_runs isZrem) hexec haux
    (fun _ h => absurd h List.not_mem_nil) (fun h => by cases h)).mpr
      ⟨rfl, failing_eq_false.mp hquiet⟩

/-- The last message cannot be published: the stored output of the program is replaced by an
internal error. -/
theorem result_replaced :
    ∃ (out : Except Exc Unit) (t : Trace) (request : ExecutionRequest) (jobId : Str),
      Program.Runs (process Deployment.default.py (Deployment.default.worker (str "worker-1"))
        sampleMessage) [] out t ∧
      ⟨.execute request jobId, .ok ⟨[], .ok sampleResult⟩⟩ ∈ t ∧ OnlyAuxiliaryFail t ∧
      ∃ x ∈ t, ∃ j r', x.cmd = .setResult j r' ∧ r' ≠ sampleResult ∧ r'.status = .failed ∧
        r'.stderr = str "internal execution error" := by
  obtain ⟨request, j, hexec⟩ := mem_executions.mp (show ⟨[], .ok sampleResult⟩ ∈
    (summary (sampleDelivery isDone).2).executions by decide +kernel)
  obtain ⟨x, hx, j', hc⟩ := mem_stored.mp (show failedResult sampleId .redisResponse ∈
    (summary (sampleDelivery isDone).2).stored by decide +kernel)
  exact ⟨_, _, request, j, sampleDelivery_runs isDone, hexec, by decide +kernel, x, hx, j', _, hc,
    by decide, rfl, rfl⟩

end CodeInterpreter.Worker
