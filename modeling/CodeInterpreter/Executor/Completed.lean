import CodeInterpreter.Executor.Sandbox

/-!
# What `COMPLETED` means

The executor reads the status of an execution off the exit status of the client `docker run`. The
client exits with 125 when Docker refuses the container, and `_build_result` takes that for an exit
status of the program. So a result with the status `COMPLETED` says that the program ran exactly
when the container was not refused.

## Main definitions

* `Refused`, `ProgramExited`: what Docker did in a run.
* `Ended`: the label of `_await_completion`, from what it waited for.

## Main results

* `execute_returns`: the result of an execution, from the end of its wait.
* `completed_means_exited_iff`: when `COMPLETED` means that the program exited.
* `refused_completed`: a refused container whose result is `COMPLETED`.
* `execute_failed`: a `FAILED` result is one of a killed container.
-/

namespace CodeInterpreter.Executor

open Async Program

/-- The trace of an execution, newest event first. -/
abbrev Trace := List (Event Cmd Reply Exc)

variable {α : Type} {t t' : Trace}

/-- Docker refused the container before the timeout and the cancellation. -/
def Refused (t : Trace) : Prop :=
  ∃ (timeout : ℤ) (race : Race) (reason : Refusal),
    ⟨.wait timeout, .ok race⟩ ∈ t ∧ race.finished = some (.refused reason)

/-- The container was created and started, and its program exited by itself with the status. -/
def ProgramExited (container : Str) (t : Trace) (status : ℤ) : Prop :=
  (∃ runtime request workdir, ⟨.spawn runtime request workdir container, .ok ()⟩ ∈ t) ∧
  ∃ (timeout : ℤ) (race : Race),
    ⟨.wait timeout, .ok race⟩ ∈ t ∧ race.finished = some (.exited status)

/-! ### The parts of the interface -/

/-- What a command of the executor belongs to. -/
inductive Part
  | disk
  | docker
  | client
  | tasks
  | race
  | clock
  deriving DecidableEq

/-- The part of a command. -/
def Cmd.part : Cmd → Part
  | .makedirs _ | .mkdtemp _ _ | .realpath _ | .writeText _ _ | .chmod _ _ | .rmtree _ => .disk
  | .simple _ => .docker
  | .spawn _ _ _ _ | .waitFor _ | .killClient | .waitClient => .client
  | .createTask _ | .cancelTask _ | .quiet _ | .awaitPumps | .awaitSampler => .tasks
  | .wait _ => .race
  | .clock => .clock

/-- The command belongs to one of the parts. -/
def Cmd.within (parts : List Part) (c : Cmd) : Bool := parts.contains c.part

/-- A program within some parts issues no command of the others. -/
theorem issues_outside {p : Prog α} {parts : List Part} {x : Part}
    (h : p.Issues fun c => c.within parts = true) (hx : parts.contains x = false) :
    p.Issues fun c => c.part ≠ x := by
  refine h.mono fun c hc heq => ?_
  rw [Cmd.within, heq, hx] at hc
  cases hc

/-- A program within some parts is within more of them. -/
theorem issues_more {p : Prog α} {parts parts' : List Part}
    (h : p.Issues fun c => c.within parts = true) (hparts : ∀ x ∈ parts, x ∈ parts') :
    p.Issues fun c => c.within parts' = true := by
  refine h.mono fun c hc => ?_
  rw [Cmd.within, List.contains_iff_mem] at hc ⊢
  exact hparts _ hc

variable (py : Python) (cfg : Settings)

theorem verifyImage_issues (runtime : RuntimeConfig) :
    (verifyImage py cfg runtime).Issues fun c => c.within [.docker] = true := by
  refine issues_bind (issues_perform rfl) fun reply => ?_
  exact issues_ite (issues_ite (issues_throw _) (issues_throw _))
    (issues_ite (issues_throw _) (issues_pure _))

theorem writeFile_issues (workdir name content : Str) :
    (writeFile workdir name content).Issues fun c => c.within [.disk] = true := by
  refine issues_bind (issues_perform rfl) fun real => ?_
  refine issues_bind (issues_perform rfl) fun root => ?_
  refine issues_ite ?_ (issues_throw _)
  exact issues_bind (issues_perform rfl) fun _ => issues_perform rfl

theorem writeInputs_issues (workdir : Str) (files : List InputFile) :
    (writeInputs py workdir files).Issues fun c => c.within [.disk] = true := by
  induction files with
  | nil => exact issues_pure _
  | cons file rest ih =>
    rw [writeInputs]
    split
    · exact issues_throw _
    · exact issues_bind (writeFile_issues workdir _ _) fun _ => ih

theorem prepareWorkdir_issues (runtime : RuntimeConfig) (request : ExecutionRequest) (jobId : Str) :
    (prepareWorkdir py cfg runtime request jobId).Issues fun c => c.within [.disk] = true := by
  refine issues_bind (issues_perform rfl) fun _ => ?_
  refine issues_bind (issues_perform rfl) fun workdir => ?_
  refine issues_bind (issues_perform rfl) fun _ => ?_
  refine issues_bind (writeFile_issues workdir _ _) fun _ => ?_
  exact issues_bind (writeInputs_issues py workdir _) fun _ => issues_pure _

theorem terminate_issues (container : Str) :
    (terminate cfg container).Issues fun c => c.within [.docker, .client] = true := by
  refine issues_bind (issues_perform rfl) fun _ => ?_
  refine issues_bind (issues_perform rfl) fun gracefully => ?_
  cases gracefully with
  | some e => exact issues_pure e
  | none =>
    refine issues_bind (issues_perform rfl) fun _ => ?_
    refine issues_bind (issues_perform rfl) fun killed => ?_
    cases killed with
    | some e => exact issues_pure e
    | none =>
      refine issues_bind (issues_perform rfl) fun _ => ?_
      exact issues_bind (issues_perform rfl) fun _ => issues_perform rfl

theorem cancelPending_issues (tasks : List Task) :
    (cancelPending tasks).Issues fun c => c.within [.tasks] = true := by
  induction tasks with
  | nil => exact issues_pure _
  | cons task rest ih =>
    refine issues_bind (issues_perform rfl) fun _ => ?_
    exact issues_bind (issues_perform rfl) fun _ => ih

theorem awaitCompletion_issues (container : Str) (timeout : ℤ) (cancellable : Bool) :
    (awaitCompletion cfg container timeout cancellable).Issues
      fun c => c.within [.docker, .client, .tasks, .race] = true := by
  refine issues_bind (issues_perform rfl) fun _ => ?_
  refine issues_bind (issues_ite (issues_perform rfl) (issues_pure _)) fun _ => ?_
  refine issues_bind (issues_perform rfl) fun race => ?_
  refine issues_bind (issues_more (cancelPending_issues _) (by decide)) fun _ => ?_
  cases Race.finished race with
  | some e => exact issues_pure _
  | none =>
    refine issues_bind (issues_more (terminate_issues cfg container) (by decide)) fun _ => ?_
    exact issues_pure _

theorem run_issues (runtime : RuntimeConfig) (request : ExecutionRequest)
    (jobId workdir container : Str) (cancellable : Bool) :
    (run cfg runtime request jobId workdir container cancellable).Issues
      fun c => c.within [.docker, .client, .tasks, .race, .clock] = true := by
  refine issues_bind (issues_perform rfl) fun start => ?_
  refine issues_bind (issues_perform rfl) fun _ => ?_
  refine issues_bind (issues_ofExcept _) fun _ => ?_
  refine issues_bind (issues_perform rfl) fun _ => ?_
  refine issues_bind (issues_perform rfl) fun _ => ?_
  refine issues_bind (issues_perform rfl) fun _ => ?_
  refine issues_bind (issues_perform rfl) fun _ => ?_
  refine issues_bind (issues_more (awaitCompletion_issues cfg _ _ _) (by decide)) fun _ => ?_
  refine issues_bind (issues_perform rfl) fun _ => ?_
  refine issues_bind (issues_perform rfl) fun _ => ?_
  refine issues_bind (issues_perform rfl) fun _ => ?_
  refine issues_bind (issues_perform rfl) fun _ => ?_
  exact issues_bind (issues_perform rfl) fun _ => issues_pure _

theorem cleanup_issues (container workdir : Str) :
    (cleanup cfg container workdir).Issues fun c => c.within [.docker, .disk] = true := by
  refine issues_bind (issues_tryCatch ?_ fun _ => issues_pure _) fun _ => issues_perform rfl
  exact issues_bind (issues_perform rfl) fun _ => issues_pure _

/-! ### The only wait -/

/-- The command is the wait for the client. -/
def Cmd.waits : Cmd → Bool
  | .wait _ => true
  | _ => false

/-- The command is not the wait for the client. -/
def NoWait (c : Cmd) : Prop := c.waits = false

/-- A program outside the race does not wait for the client. -/
theorem issues_noWait {p : Prog α} {parts : List Part}
    (h : p.Issues fun c => c.within parts = true) (hx : parts.contains .race = false) :
    p.Issues NoWait := by
  refine (issues_outside h hx).mono fun c hc => ?_
  cases c with
  | wait timeout => exact absurd rfl hc
  | _ => rfl

/-- A program that does not wait for the client adds no such event. -/
theorem wait_mem_iff {p : Prog α} {out : Except Exc α} (h : Runs p t out t') (hp : p.Issues NoWait)
    {timeout : ℤ} {a : Except Exc Race} :
    (⟨.wait timeout, a⟩ : Event Cmd Reply Exc) ∈ t' ↔ ⟨.wait timeout, a⟩ ∈ t := by
  obtain ⟨new, rfl, hnew⟩ := h.issued hp
  refine ⟨fun hmem => ?_, List.mem_append_right new⟩
  rcases List.mem_append.mp hmem with hmem | hmem
  · cases hnew _ hmem
  · exact hmem

/-! ### How an execution ends -/

/-- What `_await_completion` returns: `completed` with the end of the client when that came before
the timeout and the cancellation, else another label. -/
def Ended (race : Race) (ended : Outcome × RunEnd) : Prop :=
  match race.finished with
  | some e => ended = (.completed, e)
  | none => ended.1 ≠ .completed

/-- The trace has one wait for the client, which was answered with `race`. -/
def OneWait (race : Race) (t : Trace) : Prop :=
  (∃ timeout : ℤ, ⟨.wait timeout, .ok race⟩ ∈ t) ∧
  ∀ (timeout : ℤ) (race' : Race), ⟨.wait timeout, .ok race'⟩ ∈ t → race' = race

/-- The trace has no wait for the client. -/
def Waitless (t : Trace) : Prop :=
  ∀ (timeout : ℤ) (a : Except Exc Race), (⟨.wait timeout, a⟩ : Event Cmd Reply Exc) ∉ t

section

variable {p : Prog α} {out : Except Exc α}

theorem Waitless.runs (ht : Waitless t) (h : Runs p t out t') (hp : p.Issues NoWait) :
    Waitless t' := fun timeout a hmem => ht timeout a ((wait_mem_iff h hp).mp hmem)

theorem OneWait.runs {race : Race} (ht : OneWait race t) (h : Runs p t out t')
    (hp : p.Issues NoWait) : OneWait race t' := by
  obtain ⟨⟨timeout, hmem⟩, hone⟩ := ht
  exact ⟨⟨timeout, (wait_mem_iff h hp).mpr hmem⟩, fun timeout' race' h' =>
    hone timeout' race' ((wait_mem_iff h hp).mp h')⟩

end

theorem oneWait_cons {race : Race} {timeout : ℤ} (ht : Waitless t) :
    OneWait race (⟨.wait timeout, .ok race⟩ :: t) := by
  refine ⟨⟨timeout, List.mem_cons_self⟩, fun timeout' race' hmem => ?_⟩
  rcases List.mem_cons.mp hmem with heq | hmem
  · cases heq
    rfl
  · exact absurd hmem (ht timeout' _)

/-- `_await_completion` waits once, and its label follows from the end of that wait. -/
theorem awaitCompletion_returns {container : Str} {timeout : ℤ} {cancellable : Bool}
    {ended : Outcome × RunEnd} (ht : Waitless t)
    (h : Runs (awaitCompletion cfg container timeout cancellable) t (.ok ended) t') :
    ∃ race, OneWait race t' ∧ Ended race ended := by
  obtain ⟨_, t₁, h₁, h⟩ := runs_bind_ok h
  obtain ⟨_, t₂, h₂, h⟩ := runs_bind_ok h
  obtain ⟨race, t₃, h₃, h⟩ := runs_bind_ok h
  obtain ⟨_, t₄, h₄, h⟩ := runs_bind_ok h
  have ht₂ : Waitless t₂ := (ht.runs h₁ (issues_perform rfl)).runs h₂
    (issues_ite (issues_perform rfl) (issues_pure _))
  have ht₃ : OneWait race t₃ := runs_perform h₃ ▸ oneWait_cons ht₂
  have ht₄ : OneWait race t₄ := ht₃.runs h₄ (issues_noWait (cancelPending_issues _) rfl)
  refine ⟨race, ?_⟩
  cases hfin : Race.finished race with
  | some e =>
    rw [hfin] at h
    cases h
    refine ⟨ht₄, ?_⟩
    rw [Ended, hfin]
  | none =>
    rw [hfin] at h
    obtain ⟨e, t₅, h₅, h⟩ := runs_bind_ok h
    cases h
    refine ⟨ht₄.runs h₅ (issues_noWait (terminate_issues cfg container) rfl), ?_⟩
    rw [Ended, hfin]
    dsimp only
    split_ifs <;> exact fun heq => by cases heq

/-- The result of `_run`, from the end of its wait. -/
theorem run_returns {runtime : RuntimeConfig} {request : ExecutionRequest}
    {jobId workdir container : Str} {cancellable : Bool} {r : ExecutionResult} (ht : Waitless t)
    (h : Runs (run cfg runtime request jobId workdir container cancellable) t (.ok r) t') :
    (⟨.spawn runtime request workdir container, .ok ()⟩ : Event Cmd Reply Exc) ∈ t' ∧
    ∃ race ended capture sample wallMs, OneWait race t' ∧ Ended race ended ∧
      r = buildResult jobId ended.2.returncode ended.1 capture sample wallMs := by
  obtain ⟨start, t₁, h₁, h⟩ := runs_bind_ok h
  obtain ⟨_, t₂, h₂, h⟩ := runs_bind_ok h
  have hspawn : (⟨.spawn runtime request workdir container, .ok ()⟩ : Event Cmd Reply Exc) ∈ t' := by
    refine h.suffix.subset ?_
    rw [runs_perform h₂]
    exact List.mem_cons_self
  have ht₂ : Waitless t₂ := (ht.runs h₁ (issues_perform rfl)).runs h₂ (issues_perform rfl)
  obtain ⟨_, t₃, h₃, h⟩ := runs_bind_ok h
  obtain ⟨_, t₄, h₄, h⟩ := runs_bind_ok h
  obtain ⟨_, t₅, h₅, h⟩ := runs_bind_ok h
  obtain ⟨_, t₆, h₆, h⟩ := runs_bind_ok h
  obtain ⟨_, t₇, h₇, h⟩ := runs_bind_ok h
  have ht₅ : Waitless t₅ := ((ht₂.runs h₃ (issues_ofExcept _)).runs h₄ (issues_perform rfl)).runs h₅
    (issues_perform rfl)
  have ht₇ : Waitless t₇ := (ht₅.runs h₆ (issues_perform rfl)).runs h₇ (issues_perform rfl)
  obtain ⟨ended, t₈, h₈, h⟩ := runs_bind_ok h
  obtain ⟨race, ht₈, hended⟩ := awaitCompletion_returns cfg ht₇ h₈
  obtain ⟨outputs, t₉, h₉, h⟩ := runs_bind_ok h
  obtain ⟨_, t₁₀, h₁₀, h⟩ := runs_bind_ok h
  obtain ⟨_, t₁₁, h₁₁, h⟩ := runs_bind_ok h
  obtain ⟨sample, t₁₂, h₁₂, h⟩ := runs_bind_ok h
  obtain ⟨stop, t₁₃, h₁₃, h⟩ := runs_bind_ok h
  have ht₁₀ : OneWait race t₁₀ := (ht₈.runs h₉ (issues_perform rfl)).runs h₁₀ (issues_perform rfl)
  have ht₁₂ : OneWait race t₁₂ := (ht₁₀.runs h₁₁ (issues_perform rfl)).runs h₁₂ (issues_perform rfl)
  have ht₁₃ : OneWait race t₁₃ := ht₁₂.runs h₁₃ (issues_perform rfl)
  cases h
  exact ⟨hspawn, race, ended, _, _, _, ht₁₃, hended, rfl⟩

/-- **The result of an execution**, from the end of its only wait for the client. -/
theorem execute_returns {request : ExecutionRequest} {jobId : Str} {cancellable : Bool}
    {r : ExecutionResult} (h : Runs (execute py cfg request jobId cancellable) [] (.ok r) t) :
    (∃ runtime workdir, ⟨.spawn runtime request workdir (str "sandbox-" ++ jobId), .ok ()⟩ ∈ t) ∧
    ∃ race ended capture sample wallMs, OneWait race t ∧ Ended race ended ∧
      r = buildResult jobId ended.2.returncode ended.1 capture sample wallMs := by
  have ht : Waitless [] := fun _ _ hmem => absurd hmem List.not_mem_nil
  obtain ⟨runtime, t₁, h₁, h⟩ := runs_bind_ok h
  obtain ⟨_, t₂, h₂, h⟩ := runs_bind_ok h
  obtain ⟨workdir, t₃, h₃, h⟩ := runs_bind_ok h
  obtain ⟨t₄, hrun, hclean⟩ := runs_ensuring_ok h
  have ht₂ : Waitless t₂ := (ht.runs h₁ (issues_ofExcept _)).runs h₂
    (issues_noWait (verifyImage_issues py cfg runtime) rfl)
  have ht₃ : Waitless t₃ := ht₂.runs h₃
    (issues_noWait (prepareWorkdir_issues py cfg runtime request jobId) rfl)
  obtain ⟨hspawn, race, ended, capture, sample, wallMs, hone, hended, hr⟩ := run_returns cfg ht₃ hrun
  refine ⟨⟨runtime, workdir, hclean.suffix.subset hspawn⟩, race, ended, capture, sample, wallMs,
    ?_, hended, hr⟩
  exact hone.runs hclean (issues_noWait (cleanup_issues cfg _ workdir) rfl)

/-! ### The status of a result -/

section

variable {jobId : Str} {returncode : ℤ} {outcome : Outcome} {capture : OutputCapture}
  {sample : Sample} {wallMs : ℕ}

theorem buildResult_completed_iff :
    (buildResult jobId returncode outcome capture sample wallMs).status = .completed ↔
      outcome = .completed ∧ returncode ≠ sigkillExit := by
  cases outcome with
  | completed =>
    by_cases h : returncode = sigkillExit
    · simp [buildResult, h]
    · simp [buildResult, h]
  | timeout => simp [buildResult]
  | killed => simp [buildResult]

theorem buildResult_failed_iff :
    (buildResult jobId returncode outcome capture sample wallMs).status = .failed ↔
      (buildResult jobId returncode outcome capture sample wallMs).oomKilled = true := by
  cases outcome with
  | completed =>
    by_cases h : returncode = sigkillExit
    · simp [buildResult, h]
    · simp [buildResult, h]
  | timeout => simp [buildResult]
  | killed => simp [buildResult]

end

section

variable {request : ExecutionRequest} {jobId : Str} {cancellable : Bool} {r : ExecutionResult}

/-- A `FAILED` result of the executor is the one of a container that was killed. -/
theorem execute_failed (h : Runs (execute py cfg request jobId cancellable) [] (.ok r) t)
    (hfailed : r.status = .failed) : r.oomKilled = true := by
  obtain ⟨-, race, ended, capture, sample, wallMs, -, -, rfl⟩ := execute_returns py cfg h
  exact buildResult_failed_iff.mp hfailed

/-- In an execution that returns, a refused container excludes an exit of the program. -/
theorem not_exited_of_refused (h : Runs (execute py cfg request jobId cancellable) [] (.ok r) t)
    (href : Refused t) (container : Str) (status : ℤ) : ¬ ProgramExited container t status := by
  obtain ⟨-, race, -, -, -, -, ⟨-, hone⟩, -, -⟩ := execute_returns py cfg h
  obtain ⟨timeout, race₁, reason, hmem₁, hrefused⟩ := href
  rintro ⟨-, timeout', race₂, hmem₂, hexited⟩
  rw [hone timeout race₁ hmem₁] at hrefused
  rw [hone timeout' race₂ hmem₂, hrefused] at hexited
  cases hexited

/-- **When `COMPLETED` means that the program exited.** In an execution that returns, a result with
the status `COMPLETED` comes from a program that exited by itself with the reported exit code
exactly when Docker did not refuse the container. -/
theorem completed_means_exited_iff
    (h : Runs (execute py cfg request jobId cancellable) [] (.ok r) t) :
    (r.status = .completed → ∃ status, ProgramExited (str "sandbox-" ++ jobId) t status ∧
      r.exitCode = some status) ↔ ¬ Refused t := by
  obtain ⟨⟨runtime, workdir, hspawn⟩, race, ended, capture, sample, wallMs, ⟨⟨timeout, hmem⟩, hone⟩,
    hended, hr⟩ := execute_returns py cfg h
  have hnot : (∀ reason, race.finished ≠ some (.refused reason)) → ¬ Refused t := by
    rintro hno ⟨timeout', race', reason, hmem', hrefused⟩
    rw [hone timeout' race' hmem'] at hrefused
    exact hno reason hrefused
  cases hfin : race.finished with
  | none =>
    rw [Ended, hfin] at hended
    refine iff_of_true (fun hcompleted => ?_) (hnot fun reason heq => ?_)
    · rw [hr, buildResult_completed_iff] at hcompleted
      exact absurd hcompleted.1 hended
    · cases hfin.symm.trans heq
  | some e =>
    rw [Ended, hfin] at hended
    subst hended
    cases e with
    | exited status =>
      refine iff_of_true (fun _ => ⟨status, ?_, ?_⟩) (hnot fun reason heq => ?_)
      · exact ⟨⟨runtime, request, workdir, hspawn⟩, timeout, race, hmem, hfin⟩
      · rw [hr]
        rfl
      · cases hfin.symm.trans heq
    | refused reason =>
      have href : Refused t := ⟨timeout, race, reason, hmem, hfin⟩
      refine iff_of_false (fun hall => ?_) fun hno => hno href
      have hcompleted : r.status = .completed := by
        rw [hr, buildResult_completed_iff]
        exact ⟨rfl, show (125 : ℤ) ≠ sigkillExit by decide⟩
      obtain ⟨status, hexited, -⟩ := hall hcompleted
      exact not_exited_of_refused py cfg h href _ status hexited

end

/-! ### Executions of a sample request -/

/-- Docker refused the container. -/
def RunEnd.isRefused : RunEnd → Bool
  | .refused _ => true
  | .exited _ => false

/-- The wait ended with a refused container. -/
def refusal : Event Cmd Reply Exc → Bool
  | ⟨.wait _, .ok race⟩ => (Race.finished race).any RunEnd.isRefused
  | _ => false

theorem refused_iff : Refused t ↔ t.any refusal = true := by
  rw [List.any_eq_true]
  constructor
  · rintro ⟨timeout, race, reason, hmem, hrefused⟩
    refine ⟨_, hmem, ?_⟩
    simp [refusal, hrefused, RunEnd.isRefused]
  · rintro ⟨⟨c, a⟩, hmem, htrue⟩
    cases c with
    | wait timeout =>
      cases a with
      | error e => cases htrue
      | ok race =>
        obtain ⟨e, he, hmatch⟩ := (Option.any_eq_true _ _).mp htrue
        cases e with
        | refused reason => exact ⟨timeout, race, reason, hmem, he⟩
        | exited status => cases hmatch
    | _ => cases htrue

/-- A working machine, on which the wait for the client ends as given. -/
def sampleEnv (race : Race) (_ : Trace) : (c : Cmd) → Except Exc (Reply c)
  | .simple _ => .ok (0, [], [])
  | .mkdtemp pre dir => .ok (dir ++ str "/" ++ pre)
  | .realpath path => .ok path
  | .clock => .ok (0 : ℕ)
  | .wait _ => .ok race
  | .waitFor _ => .ok none
  | .waitClient => .ok (.exited 0)
  | .awaitPumps => .ok []
  | .awaitSampler => .ok {}
  | .makedirs _ | .writeText _ _ | .chmod _ _ | .rmtree _ | .spawn _ _ _ _ => .ok ()
  | .createTask _ | .cancelTask _ | .quiet _ | .killClient => .ok ()

/-- The settings of the sample executions. -/
def sampleSettings : Settings := ⟨fun _ => none, str "docker", str "/work", 2⟩

/-- A request of the sample executions. -/
def sampleRequest : ExecutionRequest := ⟨str "python", str "print(1)", [], 10, [], []⟩

/-- The execution of the sample request, when the wait for the client ends as given. -/
def sampleExecution (race : Race) : Except Exc ExecutionResult × Trace :=
  (execute samplePython sampleSettings sampleRequest (str "j") true).play (sampleEnv race) []

theorem sampleExecution_runs {race : Race} {r : ExecutionResult}
    (h : (sampleExecution race).1 = .ok r) :
    Runs (execute samplePython sampleSettings sampleRequest (str "j") true) [] (.ok r)
      (sampleExecution race).2 :=
  h ▸ runs_play _ _ _

/-- The program exits with 3: the result is `COMPLETED` with that exit code. -/
theorem completed_means_exited_iff_sample :
    ∃ (t : Trace) (r : ExecutionResult),
      Runs (execute samplePython sampleSettings sampleRequest (str "j") true) [] (.ok r) t ∧
      r.status = .completed ∧
      ∃ status, ProgramExited (str "sandbox-j") t status ∧ r.exitCode = some status := by
  have hrun := sampleExecution_runs (r := { jobId := str "j", status := .completed, exitCode := some 3 })
    (show (sampleExecution ⟨some (.exited 3), false⟩).1 = _ by decide +kernel)
  have hnot : ¬ Refused (sampleExecution ⟨some (.exited 3), false⟩).2 := by
    rw [refused_iff]
    decide +kernel
  exact ⟨_, _, hrun, rfl, (completed_means_exited_iff _ _ hrun).mpr hnot rfl⟩

/-- The image is there, but the name of the container is still in use: the client exits with 125,
and the result is `COMPLETED` although no program ran. -/
theorem refused_completed :
    ∃ (t : Trace) (r : ExecutionResult),
      Runs (execute samplePython sampleSettings sampleRequest (str "j") true) [] (.ok r) t ∧
      r.status = .completed ∧ r.exitCode = some 125 ∧
      ∀ status, ¬ ProgramExited (str "sandbox-j") t status := by
  have hrun := sampleExecution_runs
    (r := { jobId := str "j", status := .completed, exitCode := some 125 })
    (show (sampleExecution ⟨some (.refused .nameInUse), false⟩).1 = _ by decide +kernel)
  have href : Refused (sampleExecution ⟨some (.refused .nameInUse), false⟩).2 := by
    rw [refused_iff]
    decide +kernel
  exact ⟨_, _, hrun, rfl, rfl, not_exited_of_refused _ _ hrun href _⟩

end CodeInterpreter.Executor
