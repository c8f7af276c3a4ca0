import CodeInterpreter.Async.Protocol
import CodeInterpreter.Executor.Completed
import CodeInterpreter.Executor.Materialise

/-!
# The life of a sandbox

`Stage` says where a sandbox is in its life, as far as its executor can know, and `Stage.next` what
the executor may do there: it starts one container, waits for its end, and when that does not come
before the timeout or the cancellation, it sends `SIGTERM`, after the grace period `SIGKILL`, and at
last removes the container by force. Whatever happened, the container is removed in the end, and
nothing is done to it afterwards.

`SandboxExecutor.execute` (`worker/sandbox/executor.py`) follows this life in every run. This is
about the commands of `execute` itself. The tasks that it creates are not in its trace; of these,
the sampler calls Docker too: it inspects the container, also after the removal when `_run` raised.

## Main definitions

* `Stage`, `Stage.next`.

## Main results

* `execute_follows`: every run of an execution is a life of its sandbox.
-/

namespace CodeInterpreter.Executor

open Async Program

/-! ### The stages -/

/-- Where a sandbox is: nothing was done yet, its image was inspected, it was started, it ended, the
wait for it expired, `SIGTERM` was sent, the grace period passed, `SIGKILL` was sent and was of no
use, its removal was forced, it was removed. -/
inductive Stage
  | fresh
  | inspected
  | running
  | ended
  | expired
  | termed
  | unresponsive
  | killed
  | stuck
  | forced
  | cleaned
  deriving DecidableEq

variable (cfg : Settings) (image container : Str)

/-- The command line that sends a signal. -/
def killArgv (signal : Str) : List Str :=
  [cfg.dockerPath, str "kill", str "--signal=" ++ signal, container]

/-- The command line that removes the container. -/
def removeArgv : List Str := [cfg.dockerPath, str "rm", str "-f", container]

namespace Stage

/-- The stage after a wait for the client, which reports its end or not. -/
def waited (stage later : Stage) (ending : Except Exc (Option RunEnd)) : Stage :=
  match ending with
  | .ok (some _) => .ended
  | .ok none => later
  | .error _ => stage

/-- The executor can be stopped there by an exception, and goes on to the removal. -/
def isOpen : Stage → Bool
  | .fresh | .stuck | .cleaned => false
  | _ => true

/-- What a command of Docker does. -/
def docker (stage : Stage) (argv : List Str) : Option Stage :=
  match stage with
  | .fresh => if argv = inspectArgv cfg image then some .inspected else none
  | .stuck => if argv = removeArgv cfg container then some .forced else none
  | .cleaned => none
  | _ =>
    if argv = removeArgv cfg container then some .cleaned
    else if stage = .expired ∧ argv = killArgv cfg container (str "TERM") then some .termed
    else if stage = .unresponsive ∧ argv = killArgv cfg container (str "KILL") then some .killed
    else none

/-- The stage after an event; `none` when the event is out of place. -/
def next (stage : Stage) (e : Event Cmd Reply Exc) : Option Stage :=
  match e with
  | ⟨.simple argv, _⟩ => stage.docker cfg image container argv
  | ⟨.spawn _ _ _ name, _⟩ =>
    if stage = .inspected ∧ name = container then some .running else none
  | ⟨.wait _, r⟩ =>
    if stage = .running then some (waited stage .expired (r.map Race.finished)) else none
  | ⟨.waitFor seconds, r⟩ =>
    if stage = .termed ∧ seconds = cfg.sigtermGraceSeconds then
      some (waited stage .unresponsive r)
    else if stage = .killed ∧ seconds = killWaitSeconds then some (waited stage .stuck r)
    else none
  | ⟨.killClient, _⟩ => if stage = .forced then some stage else none
  | ⟨.waitClient, r⟩ =>
    if stage = .forced then some (waited stage stage (r.map some)) else none
  | ⟨.awaitPumps, _⟩ | ⟨.awaitSampler, _⟩ => if stage = .ended then some stage else none
  | ⟨.createTask _, _⟩ | ⟨.cancelTask _, _⟩ | ⟨.quiet _, _⟩ =>
    if stage = .running ∨ stage = .ended ∨ stage = .expired then some stage else none
  | ⟨.clock, _⟩ => if stage = .inspected ∨ stage = .ended then some stage else none
  | ⟨.rmtree _, _⟩ => if stage = .cleaned then some stage else none
  | _ => if stage = .inspected then some stage else none

end Stage

/-! ### The parts of an execution -/

section

variable {cfg image container} {α : Type}

/-- Where a part leaves the sandbox: at the given stage when it returns, at an open one when it
raises. -/
def Leaves (stage : Stage) (out : Except Exc α) (s : Stage) : Prop :=
  match out with
  | .ok _ => s = stage
  | .error _ => s.isOpen = true

/-- The next command leaves the sandbox at a stage from which the rest goes on. -/
theorem follows_command {c : Cmd} {f : Reply c → Prog α} {s u : Stage}
    {Q : Except Exc α → Stage → Prop}
    (hnext : ∀ r, Stage.next cfg image container s ⟨c, r⟩ = some u)
    (hf : ∀ a, (f a).Follows (Stage.next cfg image container) u Q)
    (herror : ∀ e, Q (.error e) u) :
    (issue c >>= f).Follows (Stage.next cfg image container) s Q := by
  refine follows_bind.mpr (follows_perform.mpr fun r => ⟨u, hnext r, ?_⟩)
  cases r with
  | ok a => exact hf a
  | error e => exact herror e

/-- A part that leaves the stage as it is. -/
theorem follows_part {p : Prog α} {β : Type} {f : α → Prog β} {s u : Stage}
    {Q : Except Exc β → Stage → Prop}
    (hp : p.Follows (Stage.next cfg image container) s (Leaves u))
    (hf : ∀ a, (f a).Follows (Stage.next cfg image container) u Q)
    (herror : ∀ e s₁, s₁.isOpen = true → Q (.error e) s₁) :
    (p >>= f).Follows (Stage.next cfg image container) s Q := by
  refine follows_bind.mpr (hp.mono fun out s₁ hout => ?_)
  cases out with
  | ok a =>
    obtain rfl : s₁ = u := hout
    exact hf a
  | error e => exact herror e s₁ hout

/-- A wait for the client, at one of the two stages where it is bounded. -/
theorem follows_waitFor {s : Stage} (later : Stage) {seconds : ℤ} (hs : s.isOpen = true)
    (hnext : ∀ r, Stage.next cfg image container s ⟨.waitFor seconds, r⟩ =
      some (Stage.waited s later r))
    {p : Prog RunEnd}
    (hp : p.Follows (Stage.next cfg image container) later (Leaves .ended)) :
    (do
      let e : Option RunEnd ← issue (.waitFor seconds)
      match e with
      | some e => return e
      | none => p : Prog RunEnd).Follows (Stage.next cfg image container) s (Leaves .ended) := by
  refine follows_bind.mpr (follows_perform.mpr fun r => ⟨_, hnext r, ?_⟩)
  match r with
  | .ok (some e) => exact rfl
  | .ok none => exact hp
  | .error e => exact hs

theorem killArgv_ne_removeArgv (signal : Str) :
    killArgv cfg container signal ≠ removeArgv cfg container := by
  simp [killArgv, removeArgv, str]

theorem next_term (r : Except Exc (Reply (.simple (killArgv cfg container (str "TERM"))))) :
    Stage.next cfg image container .expired ⟨.simple (killArgv cfg container (str "TERM")), r⟩ =
      some .termed := by
  simp [Stage.next, Stage.docker, killArgv_ne_removeArgv]

theorem next_kill (r : Except Exc (Reply (.simple (killArgv cfg container (str "KILL"))))) :
    Stage.next cfg image container .unresponsive
      ⟨.simple (killArgv cfg container (str "KILL")), r⟩ = some .killed := by
  simp [Stage.next, Stage.docker, killArgv_ne_removeArgv]

/-- The removal, from every stage but those where nothing was started or all is over. -/
theorem next_remove {s : Stage} (hs : s.isOpen = true)
    (r : Except Exc (Reply (.simple (removeArgv cfg container)))) :
    Stage.next cfg image container s ⟨.simple (removeArgv cfg container), r⟩ = some .cleaned := by
  cases s <;> simp_all [Stage.next, Stage.docker, Stage.isOpen]

/-- The tasks may be created and cancelled while the client runs and after its wait. -/
theorem next_tasks {s : Stage} (hs : s = .running ∨ s = .ended ∨ s = .expired) (task : Task) :
    (∀ r, Stage.next cfg image container s ⟨.createTask task, r⟩ = some s) ∧
      (∀ r, Stage.next cfg image container s ⟨.cancelTask task, r⟩ = some s) ∧
      ∀ r, Stage.next cfg image container s ⟨.quiet task, r⟩ = some s := by
  rcases hs with rfl | rfl | rfl <;> exact ⟨fun _ => rfl, fun _ => rfl, fun _ => rfl⟩

theorem terminate_follows :
    (terminate cfg container).Follows (Stage.next cfg image container) .expired
      (Leaves .ended) := by
  refine follows_command next_term (fun _ => ?_) fun _ => rfl
  refine follows_waitFor .unresponsive rfl (fun r => by simp [Stage.next]) ?_
  refine follows_command next_kill (fun _ => ?_) fun _ => rfl
  refine follows_waitFor .stuck rfl (fun r => by simp [Stage.next]) ?_
  refine follows_command (u := .forced) (fun r => if_pos rfl) (fun _ => ?_) fun _ => rfl
  refine follows_command (u := .forced) (fun r => rfl) (fun _ => ?_) fun _ => rfl
  refine follows_perform.mpr fun r => ⟨_, rfl, ?_⟩
  cases r <;> rfl

theorem cancelPending_follows {s : Stage} (hs : s = .ended ∨ s = .expired) (tasks : List Task) :
    (cancelPending tasks).Follows (Stage.next cfg image container) s (Leaves s) := by
  have hopen : s.isOpen = true := by rcases hs with rfl | rfl <;> rfl
  induction tasks with
  | nil => exact rfl
  | cons task rest ih =>
    obtain ⟨-, hcancel, hquiet⟩ := @next_tasks cfg image container s (.inr hs) task
    refine follows_command hcancel (fun _ => ?_) fun _ => hopen
    exact follows_command hquiet (fun _ => ih) fun _ => hopen

theorem awaitCompletion_follows (timeout : ℤ) (cancellable : Bool) :
    (awaitCompletion cfg container timeout cancellable).Follows (Stage.next cfg image container)
      .running (Leaves .ended) := by
  refine follows_command (u := .running) (fun r => rfl) (fun _ => ?_) fun _ => rfl
  refine follows_part (u := .running) ?_ (fun _ => ?_) fun _ _ h => h
  · cases cancellable with
    | false => exact rfl
    | true =>
      refine follows_perform.mpr fun r => ⟨.running, rfl, ?_⟩
      cases r <;> rfl
  refine follows_bind.mpr (follows_perform.mpr fun r => ?_)
  refine ⟨Stage.waited .running .expired (r.map Race.finished), rfl, ?_⟩
  cases r with
  | error e => exact rfl
  | ok race =>
    obtain ⟨finished, cancelled⟩ := race
    cases finished with
    | some e =>
      exact follows_part (cancelPending_follows (.inl rfl) _) (fun _ => rfl) fun _ _ h => h
    | none =>
      refine follows_part (cancelPending_follows (.inr rfl) _) (fun _ => ?_) fun _ _ h => h
      exact follows_part terminate_follows (fun _ => rfl) fun _ _ h => h

theorem run_follows (runtime : RuntimeConfig) (request : ExecutionRequest) (jobId workdir : Str)
    (cancellable : Bool) :
    (run cfg runtime request jobId workdir container cancellable).Follows
      (Stage.next cfg image container) .inspected (Leaves .ended) := by
  refine follows_command (u := .inspected) (fun r => rfl) (fun _ => ?_) fun _ => rfl
  refine follows_command (u := .running) (fun r => by simp [Stage.next]) (fun _ => ?_) fun _ => rfl
  refine follows_part (u := .running) ((follows_ofExcept _ _).mpr ?_) (fun _ => ?_) fun _ _ h => h
  · cases encodeUtf8 request.stdin <;> rfl
  refine follows_command (u := .running) (fun r => rfl) (fun _ => ?_) fun _ => rfl
  refine follows_command (u := .running) (fun r => rfl) (fun _ => ?_) fun _ => rfl
  refine follows_command (u := .running) (fun r => rfl) (fun _ => ?_) fun _ => rfl
  refine follows_command (u := .running) (fun r => rfl) (fun _ => ?_) fun _ => rfl
  refine follows_part (awaitCompletion_follows _ _) (fun _ => ?_) fun _ _ h => h
  refine follows_command (u := .ended) (fun r => rfl) (fun _ => ?_) fun _ => rfl
  refine follows_command (u := .ended) (fun r => rfl) (fun _ => ?_) fun _ => rfl
  refine follows_command (u := .ended) (fun r => rfl) (fun _ => ?_) fun _ => rfl
  refine follows_command (u := .ended) (fun r => rfl) (fun _ => ?_) fun _ => rfl
  exact follows_command (u := .ended) (fun r => rfl) (fun _ => rfl) fun _ => rfl

/-- The container is removed from every open stage, also when the removal itself raises. -/
theorem cleanup_follows {s : Stage} (hs : s.isOpen = true) (workdir : Str) :
    (cleanup cfg container workdir).Follows (Stage.next cfg image container) s
      fun _ s' => s' = .cleaned := by
  have hremove : (MonadExcept.tryCatch (do
      let _ ← issue (.simple (removeArgv cfg container))) fun _ => Pure.pure () : Prog Unit).Follows
      (Stage.next cfg image container) s fun out s' => s' = .cleaned ∧ out = .ok () := by
    refine follows_tryCatch.mpr (follows_bind.mpr (follows_perform.mpr fun r => ?_))
    refine ⟨.cleaned, next_remove hs r, ?_⟩
    cases r <;> exact ⟨rfl, rfl⟩
  refine follows_bind.mpr (hremove.mono ?_)
  rintro out s' ⟨rfl, rfl⟩
  exact follows_perform.mpr fun r => ⟨.cleaned, rfl, rfl⟩

/-- The command fills the work directory. -/
def Cmd.fills : Cmd → Bool
  | .makedirs _ | .mkdtemp _ _ | .realpath _ | .writeText _ _ | .chmod _ _ => true
  | _ => false

theorem writeFile_fills (workdir name content : Str) :
    (writeFile workdir name content).Issues fun c => c.fills = true := by
  refine issues_bind (issues_perform rfl) fun real => ?_
  refine issues_bind (issues_perform rfl) fun root => ?_
  refine issues_ite ?_ (issues_throw _)
  exact issues_bind (issues_perform rfl) fun _ => issues_perform rfl

theorem writeInputs_fills (py : Python) (workdir : Str) (files : List InputFile) :
    (writeInputs py workdir files).Issues fun c => c.fills = true := by
  induction files with
  | nil => exact issues_pure _
  | cons file rest ih =>
    rw [writeInputs]
    split
    · exact issues_throw _
    · exact issues_bind (writeFile_fills workdir _ _) fun _ => ih

theorem prepareWorkdir_follows (py : Python) (runtime : RuntimeConfig) (request : ExecutionRequest)
    (jobId : Str) :
    (prepareWorkdir py cfg runtime request jobId).Follows (Stage.next cfg image container)
      .inspected fun _ s' => s' = .inspected := by
  have hissues : (prepareWorkdir py cfg runtime request jobId).Issues fun c => c.fills = true := by
    refine issues_bind (issues_perform rfl) fun _ => ?_
    refine issues_bind (issues_perform rfl) fun workdir => ?_
    refine issues_bind (issues_perform rfl) fun _ => ?_
    refine issues_bind (writeFile_fills workdir _ _) fun _ => ?_
    exact issues_bind (writeInputs_fills py workdir _) fun _ => issues_pure _
  refine hissues.follows fun c hc r => ?_
  cases c <;> first | rfl | cases hc

theorem verifyImage_follows (py : Python) (runtime : RuntimeConfig) :
    (verifyImage py cfg runtime).Follows (Stage.next cfg runtime.image container) .fresh
      fun _ s' => s' = .inspected := by
  refine follows_command (u := .inspected) (fun r => if_pos rfl) (fun reply => ?_) fun _ => rfl
  have hends : ∀ p : Prog Unit, (p.Issues fun _ => False) →
      p.Follows (Stage.next cfg runtime.image container) .inspected fun _ s' => s' = .inspected :=
    fun p hp => hp.follows fun _ hc => hc.elim
  exact hends _ (issues_ite (issues_ite (issues_throw _) (issues_throw _))
    (issues_ite (issues_throw _) (issues_pure _)))

end

/-- The image that an execution inspects. -/
def imageOf (cfg : Settings) (request : ExecutionRequest) : Str :=
  match getRuntime cfg.env request.language with
  | .ok runtime => runtime.image
  | .error _ => []

/-- How the life of a sandbox can end: nothing was started, which an execution that returns rules
out, or the container was removed. -/
def LifeEnds (out : Except Exc ExecutionResult) (stage : Stage) : Prop :=
  stage = .cleaned ∨ (stage = .fresh ∨ stage = .inspected) ∧ ∃ e, out = .error e

/-- **An execution is a life of its sandbox.** In every run, whatever the answers of Docker and
whatever raises, the commands of `execute` itself: they touch no container but its own, send
`SIGTERM` only when the wait has expired, `SIGKILL` only after the grace period, and force the
removal only after that; they collect the output only after the client has ended; and once the
container was started, the last of them to Docker is the removal of the container, before the work
directory is deleted. -/
theorem execute_follows (py : Python) (cfg : Settings) {request : ExecutionRequest} {jobId : Str}
    {cancellable : Bool} {out : Except Exc ExecutionResult} {t : Trace}
    (h : Runs (execute py cfg request jobId cancellable) [] out t) :
    ∃ stage, stageAfter (Stage.next cfg (imageOf cfg request) (str "sandbox-" ++ jobId)) .fresh t =
      some stage ∧ LifeEnds out stage := by
  refine Follows.runs (s := .fresh) ?_ rfl h
  refine follows_bind.mpr ((follows_ofExcept _ _).mpr ?_)
  unfold imageOf
  cases getRuntime cfg.env request.language with
  | error e => exact .inr ⟨.inl rfl, e, rfl⟩
  | ok runtime =>
    refine follows_bind.mpr ((verifyImage_follows py runtime).mono ?_)
    rintro (e | u) stage rfl
    · exact .inr ⟨.inr rfl, e, rfl⟩
    refine follows_bind.mpr ((prepareWorkdir_follows py runtime request jobId).mono ?_)
    rintro (e | workdir) stage rfl
    · exact .inr ⟨.inr rfl, e, rfl⟩
    refine follows_ensuring.mpr ((run_follows runtime request jobId workdir cancellable).mono ?_)
    intro out stage hrun
    have hopen : stage.isOpen = true := by
      cases out with
      | ok r =>
        obtain rfl : stage = .ended := hrun
        rfl
      | error e => exact hrun
    refine (cleanup_follows hopen workdir).mono ?_
    rintro (e | u) stage rfl <;> exact .inl rfl

/-- The program of the sample ends by no signal, and its removal is forced. -/
theorem execute_follows_sample :
    ∃ stage, stageAfter (Stage.next sampleSettings (imageOf sampleSettings sampleRequest)
      (str "sandbox-j")) .fresh (sampleExecution ⟨none, false⟩).2 = some stage ∧
      LifeEnds (sampleExecution ⟨none, false⟩).1 stage :=
  execute_follows samplePython sampleSettings (runs_play _ _ _)

end CodeInterpreter.Executor
