import CodeInterpreter.Async.Loop
import CodeInterpreter.Async.Machine
import CodeInterpreter.Executor.Completed
import Mathlib.Logic.Function.Basic

/-!
# The tasks of an execution

`_run` starts the feeder of the standard input, two pumps and the sampler, and `_await_completion`
one or two waiters. They run next to `execute` in the event loop: each is suspended at an await of
its own, and goes on when that returns, raises or is cancelled. `execute` awaits their ends one after
the other on its way to the result. When something that it awaits before raises, it leaves through
its `finally` block, which knows nothing of the tasks: the sampler goes on polling a container that
has been removed.

## Main definitions

* `TaskPos`, `resume`, `TaskState.step`: the tasks, from one await to the next.
* `execution`: `execute` and its tasks as a state machine.
* `pending`: the tasks that were created and not awaited, in a trace of `execute`.
* `interrupted`: something that `execute` awaited raised while a task was pending.

## Main results

* `over_of_not_pending`: a task that is not pending is over.
* `execute_pending`: what is pending when `execute` ends.
* `sampler_may_wait`: a pending sampler may still be at its first read.
* `no_task_left_iff`: when no task is left at the end of `execute`.
-/

namespace CodeInterpreter.Executor

open Async Program

deriving instance DecidableEq for Task

/-! ### The tasks -/

/-- The awaits of the tasks. The sampler remembers whether it has seen the container. -/
inductive TaskPos
  | draining
  | reading
  | sending (last : Bool)
  | locating
  | measuring (observed : Bool)
  | timing (observed : Bool)
  | sleeping (observed : Bool)
  | lastMeasuring
  | lastTiming
  | waiting
  | watching
  deriving DecidableEq

/-- A task that has not been created, that has not run yet, that awaits something, or that has
ended, with or without an exception. The flag `cancelling` says that `cancel` was called. -/
inductive TaskState
  | absent
  | ready (cancelling : Bool)
  | running (pos : TaskPos) (cancelling : Bool)
  | ended (failed : Bool)
  deriving DecidableEq

/-- How an await of a task ends. A read may be the last one, and may give a text for the
callback. -/
inductive Answer
  | ok
  | done
  | send (last : Bool)
  | found
  | raised
  | cancelled
  deriving DecidableEq

/-- The first await of a task. Without a stream there is nothing to do, and without an observer the
sampler does not look for the container. -/
def start : Task → Answer → Option TaskState
  | .feedStdin, .ok => some (.running .draining false)
  | .feedStdin, .done => some (.ended false)
  | .pump _, .ok => some (.running .reading false)
  | .pump _, .done => some (.ended false)
  | .sampler, .ok => some (.running .locating false)
  | .sampler, .found => some (.running (.measuring true) false)
  | .waiter, .ok => some (.running .waiting false)
  | .cancelWaiter, .ok => some (.running .watching false)
  | _, _ => none

/-- `_feed_stdin`, `_pump`, `_sample` and the two waits, from one await to the next. -/
def resume : TaskPos → Answer → Option TaskState
  -- a broken pipe is handled
  | .draining, .ok => some (.ended false)
  | .draining, .raised => some (.ended true)
  | .reading, .ok => some (.running .reading false)
  | .reading, .done => some (.ended false)
  | .reading, .send last => some (.running (.sending last) false)
  | .reading, .raised => some (.ended true)
  | .sending last, .ok => some (if last then .ended false else .running .reading false)
  | .sending _, .raised => some (.ended true)
  | .locating, .ok => some (.running (.measuring false) false)
  | .locating, .found => some (.running (.measuring true) false)
  | .locating, .raised => some (.ended true)
  | .measuring observed, .ok => some (.running (.timing observed) false)
  | .measuring _, .raised => some (.ended true)
  | .timing observed, .ok => some (.running (.sleeping observed) false)
  | .timing _, .raised => some (.ended true)
  | .sleeping observed, .ok =>
    some (.running (if observed then .measuring true else .locating) false)
  -- the sampler reads once more when it is cancelled, and raises the cancellation again
  | .locating, .cancelled | .measuring _, .cancelled => some (.running .lastMeasuring false)
  | .timing _, .cancelled | .sleeping _, .cancelled => some (.running .lastMeasuring false)
  | .lastMeasuring, .ok => some (.running .lastTiming false)
  | .lastMeasuring, .raised => some (.ended true)
  | .lastTiming, .ok | .lastTiming, .raised => some (.ended true)
  | .waiting, .ok | .watching, .ok => some (.ended false)
  | _, .cancelled => some (.ended true)
  | _, _ => none

/-- One turn of a task. A cancellation comes first. -/
def TaskState.step (task : Task) : TaskState → Answer → Option TaskState
  | .ready false, a => start task a
  | .ready true, .cancelled => some (.ended true)
  | .running pos cancelling, a => if (a == .cancelled) = cancelling then resume pos a else none
  | _, _ => none

/-- `task.cancel()`. -/
def TaskState.cancel : TaskState → TaskState
  | .ready _ => .ready true
  | .running pos _ => .running pos true
  | state => state

/-- The task is not running and will not run. -/
def TaskState.over : TaskState → Bool
  | .absent | .ended _ => true
  | _ => false

/-- The task has ended. -/
def TaskState.hasEnded : TaskState → Bool
  | .ended _ => true
  | _ => false

/-! ### The execution -/

/-- The answers that the event loop can give to `execute`. Its own operations do not raise, and an
await of a task returns when the task has ended; `gather` raises as soon as one of its tasks has. -/
def permits (tasks : Task → TaskState) : (c : Cmd) → Except Exc (Reply c) → Bool
  | .createTask _, .error _ | .cancelTask _, .error _ | .wait _, .error _ => false
  | .quiet _, .error _ | .awaitSampler, .error _ => false
  | .wait _, .ok race => (Race.finished race).isSome == (tasks .waiter).hasEnded &&
      Race.cancelled race == (tasks .cancelWaiter).hasEnded
  | .quiet task, .ok _ => (tasks task).hasEnded
  | .awaitSampler, .ok _ => (tasks .sampler).hasEnded
  | .awaitPumps, .ok _ =>
    tasks (.pump .stdout) == .ended false && tasks (.pump .stderr) == .ended false
  | .awaitPumps, .error _ =>
    tasks (.pump .stdout) == .ended true || tasks (.pump .stderr) == .ended true
  | _, _ => true

/-- What a command of `execute` does to the tasks. -/
def effect (tasks : Task → TaskState) : Cmd → Task → TaskState
  | .createTask task => Function.update tasks task (.ready false)
  | .cancelTask task => Function.update tasks task (tasks task).cancel
  | _ => tasks

/-- `execute` as far as it has come, what it has awaited, and its tasks. -/
structure Execution where
  main : Prog ExecutionResult
  trace : Trace
  tasks : Task → TaskState

/-- The execution with one task in the given state. -/
def Execution.withTask (s : Execution) (task : Task) (state : TaskState) : Execution :=
  { s with tasks := Function.update s.tasks task state }

@[simp] theorem Execution.withTask_self (s : Execution) (task : Task) (state : TaskState) :
    (s.withTask task state).tasks task = state := by
  simp [Execution.withTask]

theorem Execution.withTask_of_ne (s : Execution) {task task' : Task} (h : task ≠ task')
    (state : TaskState) : (s.withTask task' state).tasks task = s.tasks task := by
  simp [Execution.withTask, h]

/-- What can happen next: the answer to what `execute` awaits, or to what a task awaits. -/
inductive Happening
  | main (answer : (c : Cmd) → Except Exc (Reply c))
  | task (task : Task) (answer : Answer)

/-- `execute` and its tasks. -/
def execution (py : Python) (cfg : Settings) (request : ExecutionRequest) (jobId : Str)
    (cancellable : Bool) : Async.Machine Execution Happening where
  init := ⟨execute py cfg request jobId cancellable, [], fun _ => .absent⟩
  step s
    | .main answer =>
      match s.main with
      | .call c k =>
        if permits s.tasks c (answer c) then
          some ⟨k (answer c), ⟨c, answer c⟩ :: s.trace, effect s.tasks c⟩
        else none
      | _ => none
    | .task task a => ((s.tasks task).step task a).map (s.withTask task)

/-! ### Traces and tasks -/

/-- The event shows that the task has ended. -/
def joined : Event Cmd Reply Exc → Task → Bool
  | ⟨.wait _, .ok race⟩, .waiter => (Race.finished race).isSome
  | ⟨.wait _, .ok race⟩, .cancelWaiter => Race.cancelled race
  | ⟨.quiet task', .ok _⟩, task => task == task'
  | ⟨.awaitPumps, .ok _⟩, .pump _ => true
  | ⟨.awaitSampler, .ok _⟩, .sampler => true
  | _, _ => false

/-- The task that the event created. -/
def creates : Event Cmd Reply Exc → List Task
  | ⟨.createTask task, .ok _⟩ => [task]
  | _ => []

/-- The tasks that were created and not awaited. -/
def pending : Trace → List Task
  | [] => []
  | ev :: t => creates ev ++ (pending t).filter fun task => !joined ev task

/-- The command raised. -/
def raised : Event Cmd Reply Exc → Bool
  | ⟨_, .error _⟩ => true
  | ⟨_, .ok _⟩ => false

/-- Something that `execute` awaited raised while a task was pending. -/
def interrupted : Trace → Bool
  | [] => false
  | ev :: t => interrupted t || (raised ev && !(pending t).isEmpty)

/-! ### Tasks that are not pending -/

section

variable {tasks : Task → TaskState} {task : Task}

theorem hasEnded_over {state : TaskState} (h : state.hasEnded = true) : state.over = true := by
  cases state <;> first | rfl | cases h

theorem cancel_over {state : TaskState} (h : state.over = true) : state.cancel = state := by
  cases state <;> first | rfl | cases h

theorem step_of_over {state : TaskState} (h : state.over = true) (a : Answer) :
    state.step task a = none := by
  cases state with
  | absent => rfl
  | ended failed => rfl
  | ready cancelling => cases h
  | running pos cancelling => cases h

variable {c : Cmd} {r : Except Exc (Reply c)}

/-- An await of a task returns only when the task has ended. -/
theorem hasEnded_of_joined (hr : permits tasks c r = true) (h : joined ⟨c, r⟩ task = true) :
    (tasks task).hasEnded = true := by
  cases r with
  | error e => cases c <;> cases task <;> cases h
  | ok a =>
    cases c with
    | wait timeout =>
      simp only [permits, Bool.and_eq_true, beq_iff_eq] at hr
      cases task with
      | waiter => exact hr.1.symm.trans h
      | cancelWaiter => exact hr.2.symm.trans h
      | _ => cases h
    | quiet task' =>
      obtain rfl : task = task' := by simpa [joined] using h
      exact hr
    | awaitPumps =>
      simp only [permits, Bool.and_eq_true, beq_iff_eq] at hr
      cases task with
      | pump kind =>
        cases kind with
        | stdout =>
          rw [hr.1]
          rfl
        | stderr =>
          rw [hr.2]
          rfl
      | _ => cases h
    | awaitSampler =>
      cases task with
      | sampler => exact hr
      | _ => cases h
    | _ => cases task <;> cases h

/-- A task that is over and is not created again stays over. -/
theorem effect_over (hr : permits tasks c r = true) (h : (tasks task).over = true)
    (hnew : task ∉ creates ⟨c, r⟩) : (effect tasks c task).over = true := by
  cases c with
  | createTask task' =>
    cases r with
    | error e => cases hr
    | ok a =>
      have hne : task ≠ task' := fun heq => hnew (heq ▸ List.mem_cons_self)
      rw [effect, Function.update_of_ne hne]
      exact h
  | cancelTask task' =>
    by_cases htask : task = task'
    · subst htask
      rw [effect, Function.update_self, cancel_over h]
      exact h
    · rw [effect, Function.update_of_ne htask]
      exact h
  | _ => exact h

end

section

variable {py : Python} {cfg : Settings} {request : ExecutionRequest} {jobId : Str}
  {cancellable : Bool} {s s' : Execution}

/-- The steps of an execution. -/
theorem execution_step {v : Happening}
    (h : (execution py cfg request jobId cancellable).step s v = some s') :
    (∃ (c : Cmd) (k : Except Exc (Reply c) → Prog ExecutionResult) (r : Except Exc (Reply c)),
      s.main = .call c k ∧ permits s.tasks c r = true ∧
      s' = ⟨k r, ⟨c, r⟩ :: s.trace, effect s.tasks c⟩) ∨
    ∃ task a state, v = .task task a ∧ (s.tasks task).step task a = some state ∧
      s' = s.withTask task state := by
  cases v with
  | main answer =>
    simp only [execution] at h
    split at h
    · next c k hmain =>
      split at h
      · next hr => exact .inl ⟨c, k, answer c, hmain, hr, (Option.some.inj h).symm⟩
      · cases h
    · cases h
  | task task a =>
    obtain ⟨state, hstate, rfl⟩ := Option.map_eq_some_iff.mp h
    exact .inr ⟨task, a, state, rfl, hstate, rfl⟩

/-- Every answer that the event loop can give is a step. -/
theorem reachable_main (h : (execution py cfg request jobId cancellable).Reachable s) {c : Cmd}
    {k : Except Exc (Reply c) → Prog ExecutionResult} {r : Except Exc (Reply c)}
    (hmain : s.main = .call c k) (hr : permits s.tasks c r = true) :
    (execution py cfg request jobId cancellable).Reachable
      ⟨k r, ⟨c, r⟩ :: s.trace, effect s.tasks c⟩ := by
  classical
  refine .step h trivial (v := .main fun c' => if h : c = c' then h ▸ r else .error .other) ?_
  simp only [execution, hmain, dite_true, hr, if_true]

/-- **A task that is not pending is over.** -/
theorem over_of_not_pending (h : (execution py cfg request jobId cancellable).Reachable s) :
    ∀ task, task ∉ pending s.trace → (s.tasks task).over = true := by
  refine h.invariant (I := fun s => ∀ task, task ∉ pending s.trace → (s.tasks task).over = true)
    (fun _ _ => rfl) ?_
  intro s v s' hI _ hs task htask
  rcases execution_step hs with ⟨c, k, r, -, hr, rfl⟩ | ⟨task', a, state, -, hstate, rfl⟩
  · simp only [pending, List.mem_append, not_or, List.mem_filter, not_and, Bool.not_eq_true',
      Bool.not_eq_false] at htask
    refine effect_over hr ?_ htask.1
    by_cases hpending : task ∈ pending s.trace
    · exact hasEnded_over (hasEnded_of_joined hr (htask.2 hpending))
    · exact hI task hpending
  · have hover := hI task htask
    have hne : task ≠ task' := by
      rintro rfl
      rw [step_of_over hover] at hstate
      cases hstate
    rw [s.withTask_of_ne hne]
    exact hover

/-! ### A sampler that waits -/

/-- The answers to what is not an await of the sampler do not depend on it. -/
theorem permits_update {tasks : Task → TaskState} {c : Cmd} {r : Except Exc (Reply c)}
    (hr : permits tasks c r = true) (h : joined ⟨c, r⟩ .sampler = false) (state : TaskState) :
    permits (Function.update tasks .sampler state) c r = true := by
  cases r with
  | error e => cases c <;> exact hr
  | ok a =>
    cases c with
    | quiet task =>
      have hne : task ≠ .sampler := fun heq => by simp [joined, heq] at h
      simp only [permits, Function.update_of_ne hne]
      exact hr
    | awaitSampler => cases h
    | _ => exact hr

/-- A command that does not create the sampler only may cancel it. -/
theorem effect_update (tasks : Task → TaskState) {c : Cmd} {r : Except Exc (Reply c)}
    (hr : permits tasks c r = true) (h : Task.sampler ∉ creates ⟨c, r⟩) (pos : TaskPos)
    (cancelling : Bool) :
    ∃ cancelling', effect (Function.update tasks .sampler (.running pos cancelling)) c =
      Function.update (effect tasks c) .sampler (.running pos cancelling') := by
  cases c with
  | createTask task =>
    cases r with
    | error e => cases hr
    | ok a =>
      have hne : task ≠ .sampler := fun heq => h (heq ▸ List.mem_cons_self)
      exact ⟨cancelling, Function.update_comm hne.symm _ _ _⟩
  | cancelTask task =>
    by_cases htask : task = .sampler
    · subst htask
      refine ⟨true, ?_⟩
      simp only [effect, Function.update_idem, Function.update_self, TaskState.cancel]
    · refine ⟨cancelling, ?_⟩
      simp only [effect, Function.update_of_ne htask]
      exact Function.update_comm (Ne.symm htask) _ _ _
  | _ => exact ⟨cancelling, rfl⟩

/-- **A pending sampler may still be at its first read.** The same trace of `execute` is possible
when the first read of the sampler has not returned. -/
theorem sampler_may_wait (h : (execution py cfg request jobId cancellable).Reachable s)
    (hpending : .sampler ∈ pending s.trace) :
    ∃ cancelling, (execution py cfg request jobId cancellable).Reachable
      (s.withTask .sampler (.running .locating cancelling)) := by
  induction h with
  | start => cases hpending
  | @step s s' v h hv hs ih =>
    rcases execution_step hs with ⟨c, k, r, hmain, hr, rfl⟩ | ⟨task, a, state, rfl, hstate, rfl⟩
    · by_cases hnew : Task.sampler ∈ creates ⟨c, r⟩
      · -- the step that creates the sampler, and its start
        have hready : effect s.tasks c .sampler = .ready false := by
          cases c with
          | createTask task =>
            cases r with
            | error e => cases hr
            | ok a =>
              obtain rfl := List.mem_singleton.mp hnew
              exact Function.update_self Task.sampler _ s.tasks
          | _ => cases r <;> cases hnew
        refine ⟨false, .step (.step h hv hs) trivial (v := .task .sampler .ok) ?_⟩
        simp only [execution, hready]
        rfl
      · -- a step that leaves the sampler where it is
        simp only [pending, List.mem_append, hnew, false_or, List.mem_filter,
          Bool.not_eq_true'] at hpending
        obtain ⟨cancelling, hreach⟩ := ih hpending.1
        obtain ⟨cancelling', heffect⟩ := effect_update s.tasks hr hnew .locating cancelling
        refine ⟨cancelling', ?_⟩
        rw [Execution.withTask, ← heffect]
        exact reachable_main hreach hmain (permits_update hr hpending.2 _)
    · obtain ⟨cancelling, hreach⟩ := ih hpending
      refine ⟨cancelling, ?_⟩
      by_cases htask : task = .sampler
      · subst htask
        simpa only [Execution.withTask, Function.update_idem] using hreach
      · have hstep : (execution py cfg request jobId cancellable).step
            (s.withTask .sampler (.running .locating cancelling)) (.task task a) =
            some ((s.withTask task state).withTask .sampler (.running .locating cancelling)) := by
          simp only [execution, Execution.withTask, Function.update_of_ne htask, hstate,
            Option.map_some, Function.update_comm htask]
        exact .step hreach trivial hstep

end

/-! ### What `execute` leaves pending -/

/-- The operations of the event loop itself. -/
def Cmd.own : Cmd → Bool
  | .createTask _ | .cancelTask _ | .wait _ | .quiet _ | .awaitSampler => true
  | _ => false

/-- The contract with the event loop: its own operations do not raise. -/
def asyncio : Contract Cmd Reply Exc where
  allows _ _ := True
  answers _ c r := c.own = true → ∃ a, r = .ok a

theorem answers_of_permits {tasks : Task → TaskState} {c : Cmd} {r : Except Exc (Reply c)}
    {t : Trace} (h : permits tasks c r = true) : asyncio.answers t c r := by
  intro hown
  cases r with
  | ok a => exact ⟨a, rfl⟩
  | error e =>
    cases c <;> first | exact absurd hown Bool.false_ne_true | exact absurd h Bool.false_ne_true

/-- The trace was not interrupted, and the given tasks are pending. -/
def Open (tasks : List Task) (t : Trace) : Prop := interrupted t = false ∧ pending t = tasks

/-- The trace was interrupted, and the sampler is pending. -/
def Cut (t : Trace) : Prop := interrupted t = true ∧ .sampler ∈ pending t

/-- How a part of `execute` ends: the given tasks are pending, or an exception cut the trace. -/
def Ends {α : Type} (tasks : List Task) (out : Except Exc α) (t : Trace) : Prop :=
  match out with
  | .ok _ => Open tasks t
  | .error _ => Cut t

/-- The command is none of the tasks. -/
def Cmd.plain (c : Cmd) : Bool := !c.within [.tasks, .race]

section

variable {c : Cmd} {t : Trace} {tasks : List Task}

theorem pending_error (c : Cmd) (e : Exc) (t : Trace) :
    pending (⟨c, .error e⟩ :: t) = pending t := by
  have hjoined : ∀ task, joined ⟨c, .error e⟩ task = false := fun task => by
    cases c <;> cases task <;> rfl
  have hcreates : creates ⟨c, .error e⟩ = [] := by cases c <;> rfl
  simp [pending, hjoined, hcreates]

theorem pending_plain (hc : c.plain = true) (r : Except Exc (Reply c)) (t : Trace) :
    pending (⟨c, r⟩ :: t) = pending t := by
  cases r with
  | error e => exact pending_error c e t
  | ok a =>
    have hjoined : ∀ task, joined ⟨c, .ok a⟩ task = false := fun task => by
      cases c <;> first | rfl | cases hc
    have hcreates : creates ⟨c, .ok a⟩ = [] := by
      cases c <;> first | rfl | cases hc
    simp [pending, hjoined, hcreates]

theorem Open.ok (h : Open tasks t) (a : Reply c) :
    Open (creates ⟨c, .ok a⟩ ++ tasks.filter fun task => !joined ⟨c, .ok a⟩ task)
      (⟨c, .ok a⟩ :: t) := by
  refine ⟨by simp [interrupted, h.1, raised], ?_⟩
  rw [pending, h.2]

theorem Open.plain (h : Open tasks t) (hc : c.plain = true) (a : Reply c) :
    Open tasks (⟨c, .ok a⟩ :: t) :=
  ⟨(h.ok a).1, (pending_plain hc _ t).trans h.2⟩

theorem Open.error (h : Open tasks t) (htasks : .sampler ∈ tasks) (c : Cmd) (e : Exc) :
    Cut (⟨c, .error e⟩ :: t) := by
  have hne : (pending t).isEmpty = false := by
    rw [h.2]
    exact List.isEmpty_eq_false_iff.mpr (List.ne_nil_of_mem htasks)
  refine ⟨by simp [interrupted, raised, hne], ?_⟩
  rw [pending_error, h.2]
  exact htasks

/-- With nothing pending an exception does no harm. -/
theorem Open.keep (h : Open [] t) (hc : c.plain = true) (r : Except Exc (Reply c)) :
    Open [] (⟨c, r⟩ :: t) :=
  ⟨by simp [interrupted, h.1, h.2], (pending_plain hc r t).trans h.2⟩

theorem Cut.keep (h : Cut t) (hc : c.plain = true) (r : Except Exc (Reply c)) : Cut (⟨c, r⟩ :: t) :=
  ⟨by simp [interrupted, h.1], by rw [pending_plain hc r t]; exact h.2⟩

variable {α : Type} {f : Reply c → Prog α} {Q : Except Exc α → Trace → Prop}

/-- An operation of the event loop. -/
theorem wp_own (hc : c.own = true) (hf : ∀ a, (f a).wp asyncio Q (⟨c, .ok a⟩ :: t)) :
    (issue c >>= f).wp asyncio Q t := by
  refine (wp_bind _ _ _ _).mpr ((wp_perform _ _ _).mpr ⟨trivial, fun r hr => ?_⟩)
  obtain ⟨a, rfl⟩ := hr hc
  exact hf a

/-- Any other command: it returns, or it raises. -/
theorem wp_issue (hf : ∀ a, (f a).wp asyncio Q (⟨c, .ok a⟩ :: t))
    (he : ∀ e, Q (.error e) (⟨c, .error e⟩ :: t)) : (issue c >>= f).wp asyncio Q t := by
  refine (wp_bind _ _ _ _).mpr ((wp_perform _ _ _).mpr ⟨trivial, fun r _ => ?_⟩)
  cases r with
  | ok a => exact hf a
  | error e => exact he e

end

section

variable {t : Trace} {tasks tasks' : List Task} {α : Type}

/-- A command that is none of the tasks, while the sampler is pending. -/
theorem wp_plain {c : Cmd} (hc : c.plain = true) {f : Reply c → Prog α} (h : Open tasks t)
    (htasks : .sampler ∈ tasks)
    (hf : ∀ a t', Open tasks t' → (f a).wp asyncio (Ends tasks') t') :
    (issue c >>= f).wp asyncio (Ends tasks') t :=
  wp_issue (fun a => hf a _ (h.plain hc a)) fun e => h.error htasks c e

variable (cfg : Settings)

theorem terminate_ends (h : Open tasks t) (htasks : .sampler ∈ tasks) (container : Str) :
    (terminate cfg container).wp asyncio (Ends tasks) t := by
  refine wp_plain rfl h htasks fun _ t₁ h₁ => ?_
  refine wp_plain rfl h₁ htasks fun gracefully t₂ h₂ => ?_
  cases gracefully with
  | some e => exact h₂
  | none =>
    refine wp_plain rfl h₂ htasks fun _ t₃ h₃ => ?_
    refine wp_plain rfl h₃ htasks fun killed t₄ h₄ => ?_
    cases killed with
    | some e => exact h₄
    | none =>
      refine wp_plain rfl h₄ htasks fun _ t₅ h₅ => ?_
      refine wp_plain rfl h₅ htasks fun _ t₆ h₆ => ?_
      refine (wp_perform _ _ _).mpr ⟨trivial, fun r _ => ?_⟩
      cases r with
      | ok e => exact h₆.plain rfl e
      | error e => exact h₆.error htasks _ e

/-- The loop over the waiters that are not done leaves none of them pending. -/
theorem cancelPending_ends (waiters : List Task) (h : Open tasks t) :
    (cancelPending waiters).wp asyncio
      (Ends (tasks.filter fun task => !waiters.contains task)) t := by
  induction waiters generalizing t tasks with
  | nil =>
    have hall : (tasks.filter fun task => !([] : List Task).contains task) = tasks :=
      List.filter_eq_self.mpr fun _ _ => rfl
    rw [hall]
    exact h
  | cons task rest ih =>
    refine wp_own rfl fun a => wp_own rfl fun b => ?_
    have hopen : Open (tasks.filter fun task' => !(task' == task))
        (⟨.quiet task, .ok b⟩ :: ⟨.cancelTask task, .ok a⟩ :: t) := by
      refine ⟨by simp [interrupted, h.1, raised], ?_⟩
      simp [pending, creates, joined, h.2]
    have hfilter : (tasks.filter fun task' => !(task :: rest).contains task') =
        (tasks.filter fun task' => !(task' == task)).filter fun task' => !rest.contains task' := by
      rw [List.filter_filter]
      refine List.filter_congr fun task' _ => ?_
      rw [List.contains_cons, Bool.not_or, Bool.and_comm]
    rw [hfilter]
    exact ih hopen

/-- The tasks that `_run` starts, the last one first. -/
def started : List Task := [.sampler, .pump .stderr, .pump .stdout, .feedStdin]

theorem Open.create (h : Open tasks t) (task : Task) (a : Unit) :
    Open (task :: tasks) (⟨.createTask task, .ok a⟩ :: t) := by
  refine ⟨by simp [interrupted, h.1, raised], ?_⟩
  simp [pending, creates, joined, h.2]

/-- The waiters of `_await_completion` are awaited whatever the wait ends with. -/
theorem waiters_awaited (cancellable : Bool) (timeout : ℤ) (race : Race) :
    ((((if cancellable then [Task.cancelWaiter] else []) ++ .waiter :: started).filter
        fun task => !joined ⟨.wait timeout, .ok race⟩ task).filter fun task =>
      !(((if race.finished.isNone then [.waiter] else []) ++
        if cancellable && !race.cancelled then [.cancelWaiter] else [] : List Task).contains task)) =
      started := by
  obtain ⟨finished, cancelled⟩ := race
  cases cancellable <;> cases finished <;> cases cancelled <;> rfl

theorem awaitCompletion_ends (h : Open started t) (container : Str) (timeout : ℤ)
    (cancellable : Bool) :
    (awaitCompletion cfg container timeout cancellable).wp asyncio (Ends started) t := by
  refine wp_own rfl fun a => ?_
  have hcreated : (awaitCancel cancellable).wp asyncio
      (Ends ((if cancellable then [Task.cancelWaiter] else []) ++ .waiter :: started))
      (⟨.createTask .waiter, .ok a⟩ :: t) := by
    cases cancellable with
    | true =>
      refine (wp_perform _ _ _).mpr ⟨trivial, fun r hr => ?_⟩
      obtain ⟨b, rfl⟩ := hr rfl
      exact (h.create .waiter a).create .cancelWaiter b
    | false => exact h.create .waiter a
  refine wp_bind_of hcreated (fun b t₁ _ h₁ => ?_) fun e t₁ _ h₁ => h₁
  refine wp_own rfl fun race => ?_
  have h₂ : Open _ (⟨.wait timeout, .ok race⟩ :: t₁) := Open.ok h₁ race
  refine wp_bind_of (cancelPending_ends _ h₂) (fun _ t₃ _ h₃ => ?_) fun e t₃ _ h₃ => h₃
  have h₃ : Open started t₃ := waiters_awaited cancellable timeout race ▸ h₃
  cases hfinished : Race.finished race with
  | some e => exact h₃
  | none =>
    refine wp_bind_of (terminate_ends cfg h₃ (by decide) container) (fun e t₄ _ h₄ => ?_)
      fun e t₄ _ h₄ => h₄
    exact h₄

/-- `_run` from the start of its tasks on. -/
theorem run_ends (h : Open [] t) (runtime : RuntimeConfig) (request : ExecutionRequest)
    (jobId workdir container : Str) (cancellable : Bool) :
    (run cfg runtime request jobId workdir container cancellable).wp asyncio
      (fun _ t' => Open [] t' ∨ Cut t') t := by
  refine wp_issue (fun start => ?_) fun e => .inl (h.keep rfl _)
  have h₁ : Open [] (⟨.clock, .ok start⟩ :: t) := h.keep rfl _
  refine wp_issue (fun spawned => ?_) fun e => .inl (h₁.keep rfl _)
  have h₂ : Open [] (⟨.spawn runtime request workdir container, .ok spawned⟩ ::
    ⟨.clock, .ok start⟩ :: t) := h₁.keep rfl _
  refine (wp_bind _ _ _ _).mpr ((wp_ofExcept _ _ _).mpr ?_)
  cases encodeUtf8 request.stdin with
  | error e => exact .inl h₂
  | ok u =>
    refine wp_own rfl fun a => wp_own rfl fun b => wp_own rfl fun d => wp_own rfl fun e => ?_
    have h₃ : Open started _ := (((h₂.create .feedStdin a).create (.pump .stdout) b).create
      (.pump .stderr) d).create .sampler e
    refine wp_bind_of (awaitCompletion_ends cfg h₃ _ _ _) (fun ended t₄ _ h₄ => ?_)
      fun e t₄ _ h₄ => .inr h₄
    have h₄ : Open started t₄ := h₄
    refine wp_issue (fun outputs => ?_) fun e => .inr (h₄.error (by decide) _ e)
    refine wp_own rfl fun x => wp_own rfl fun y => wp_own rfl fun sample => ?_
    have h₅ : Open [] (⟨.awaitSampler, .ok sample⟩ :: ⟨.cancelTask .sampler, .ok y⟩ ::
        ⟨.quiet .feedStdin, .ok x⟩ :: ⟨.awaitPumps, .ok outputs⟩ :: t₄) :=
      (((h₄.ok (c := .awaitPumps) outputs).ok (c := .quiet .feedStdin) x).ok
        (c := .cancelTask .sampler) y).ok (c := .awaitSampler) sample
    exact wp_issue (fun stop => .inl (h₅.keep rfl _)) fun e => .inl (h₅.keep rfl _)

/-- A program outside the tasks and the race issues none of their commands. -/
theorem issues_plain {p : Prog α} {parts : List Part} (h : p.Issues fun c => c.within parts = true)
    (hparts : parts.contains .tasks = false) (hrace : parts.contains .race = false) :
    p.Issues fun c => c.plain = true := by
  refine h.mono fun c hc => ?_
  cases c <;> first | rfl | cases hparts.symm.trans hc | cases hrace.symm.trans hc

/-- **What is pending when `execute` ends**: nothing, or the sampler after an interruption. -/
theorem execute_pending (py : Python) (request : ExecutionRequest) (jobId : Str)
    (cancellable : Bool) :
    (execute py cfg request jobId cancellable).wp asyncio (fun _ t => Open [] t ∨ Cut t) [] := by
  have hbefore : ∀ {β : Type} {p : Prog β} {t : Trace}, p.Issues (fun c => c.plain = true) →
      Open [] t → p.wp asyncio (fun _ t' => Open [] t') t := fun hp h =>
    wp_of_issues hp (fun _ _ => trivial) (fun t c r hc h => h.keep hc r) h
  refine (wp_bind _ _ _ _).mpr ((wp_ofExcept _ _ _).mpr ?_)
  cases getRuntime cfg.env request.language with
  | error e => exact .inl ⟨rfl, rfl⟩
  | ok runtime =>
    refine wp_bind_of (hbefore (issues_plain (verifyImage_issues py cfg runtime) rfl rfl)
      ⟨rfl, rfl⟩) (fun _ t₁ _ h₁ => ?_) fun e t₁ _ h₁ => .inl h₁
    refine wp_bind_of (hbefore (issues_plain (prepareWorkdir_issues py cfg runtime request jobId)
      rfl rfl) h₁) (fun workdir t₂ _ h₂ => ?_) fun e t₂ _ h₂ => .inl h₂
    refine (wp_ensuring _ _ _ _).mpr (wp_mono (run_ends cfg h₂ _ _ _ _ _ _) fun out t₃ h₃ => ?_)
    -- the cleanup awaits no task
    have hcleanup := issues_plain (cleanup_issues cfg (str "sandbox-" ++ jobId) workdir) rfl rfl
    refine wp_mono (wp_of_issues (I := fun t => Open [] t ∨ Cut t) hcleanup (fun _ _ => trivial)
      (fun t c r hc h => ?_) h₃) fun last t₄ h₄ => ?_
    · exact h.imp (fun h => h.keep hc r) fun h => h.keep hc r
    · cases last <;> exact h₄

end

/-! ### The end of an execution -/

section

variable {py : Python} {cfg : Settings} {request : ExecutionRequest} {jobId : Str}
  {cancellable : Bool} {s : Execution}

/-- What `execute` owes holds of what is left of it. -/
theorem wp_reachable (h : (execution py cfg request jobId cancellable).Reachable s)
    {Q : Except Exc ExecutionResult → Trace → Prop}
    (hQ : (execute py cfg request jobId cancellable).wp asyncio Q []) :
    s.main.wp asyncio Q s.trace := by
  refine h.invariant (I := fun s => s.main.wp asyncio Q s.trace) hQ ?_
  intro s v s' hI _ hs
  rcases execution_step hs with ⟨c, k, r, hmain, hr, rfl⟩ | ⟨task, a, state, -, -, rfl⟩
  · rw [hmain] at hI
    exact hI.2 r (answers_of_permits hr)
  · exact hI

/-- At the end of `execute` nothing is pending, or it was interrupted. -/
theorem pending_at_end (h : (execution py cfg request jobId cancellable).Reachable s)
    (hend : s.main.Finished) : Open [] s.trace ∨ Cut s.trace := by
  have hwp := wp_reachable h (execute_pending cfg py request jobId cancellable)
  cases hmain : s.main with
  | call c k =>
    rw [hmain] at hend
    exact absurd hend id
  | pure a =>
    rw [hmain] at hwp
    exact hwp
  | throw e =>
    rw [hmain] at hwp
    exact hwp

/-- **When an execution leaves no task behind.** For every execution that has ended, whatever the
tasks did meanwhile, all tasks are over in every execution with the same answers to what `execute`
awaits, exactly when none of these raised while a task was pending. -/
theorem no_task_left_iff (h : (execution py cfg request jobId cancellable).Reachable s)
    (hend : s.main.Finished) :
    (∀ s', (execution py cfg request jobId cancellable).Reachable s' → s'.main.Finished →
      s'.trace = s.trace → ∀ task, (s'.tasks task).over = true) ↔ interrupted s.trace = false := by
  rcases pending_at_end h hend with hopen | hcut
  · refine iff_of_true (fun s' h' _ htrace task => over_of_not_pending h' task ?_) hopen.1
    rw [htrace, hopen.2]
    exact List.not_mem_nil
  · refine iff_of_false (fun hall => ?_) (by simp [hcut.1])
    obtain ⟨cancelling, hwait⟩ := sampler_may_wait h hcut.2
    have hover := hall _ hwait hend rfl .sampler
    rw [s.withTask_self] at hover
    cases hover

end

/-! ### Executions of a sample request -/

/-- The execution of the sample request. -/
def sampleTasks : Async.Machine Execution Happening :=
  execution samplePython sampleSettings sampleRequest (str "j") true

/-- The next awaits of `execute` return, with the given end of the wait for the client. -/
def returns (race : Race) (n : ℕ) : List Happening := List.replicate n (.main (sampleEnv race []))

/-- The client exits, and everything is awaited: the commands up to the wait, with the sampler at
its second read; the waiters, the pumps, the feeder and the sampler; the end. -/
def sampleEnded : List Happening :=
  let race : Race := ⟨some (.exited 0), false⟩
  returns race 16 ++ [.task .sampler .ok, .task .sampler .found, .task .waiter .ok,
    .task .cancelWaiter .ok, .task .waiter .ok] ++ returns race 2 ++
  [.task .cancelWaiter .cancelled] ++ returns race 1 ++
  [.task (.pump .stdout) .ok, .task (.pump .stderr) .ok, .task (.pump .stdout) .done,
    .task (.pump .stderr) .done] ++ returns race 1 ++
  [.task .feedStdin .done] ++ returns race 2 ++
  [.task .sampler .cancelled, .task .sampler .ok, .task .sampler .ok] ++ returns race 4

/-- The timeout passes, and `docker kill` raises while the sampler sleeps between two reads. -/
def sampleKill : List Happening :=
  let race : Race := ⟨none, false⟩
  returns race 16 ++ [.task .sampler .ok, .task .sampler .found, .task .sampler .ok,
    .task .sampler .ok, .task .waiter .ok, .task .cancelWaiter .ok] ++ returns race 2 ++
  [.task .waiter .cancelled] ++ returns race 2 ++ [.task .cancelWaiter .cancelled] ++
  returns race 1 ++ [.main fun _ => .error .other] ++ returns race 2

/-- Where a list of happenings leads. -/
def sampleAfter (vs : List Happening) : Execution :=
  (sampleTasks.play (fun _ _ => true) sampleTasks.init vs).getD sampleTasks.init

theorem sampleAfter_reachable (vs : List Happening)
    (h : (sampleTasks.play (fun _ _ => true) sampleTasks.init vs).isSome = true) :
    sampleTasks.Reachable (sampleAfter vs) := by
  obtain ⟨s, hs⟩ := Option.isSome_iff_exists.mp h
  rw [sampleAfter, hs]
  exact Async.Machine.reachable_of_play vs hs

/-- The program has ended, as a test. -/
def isFinished : Prog ExecutionResult → Bool
  | .call _ _ => false
  | _ => true

theorem finished_of_isFinished {p : Prog ExecutionResult} (h : isFinished p = true) :
    p.Finished := by
  cases p with
  | call c k => cases h
  | pure a => exact trivial
  | throw e => exact trivial

/-- In the first sample nothing raises, and every task is over. -/
theorem no_task_left_ended :
    sampleTasks.Reachable (sampleAfter sampleEnded) ∧ (sampleAfter sampleEnded).main.Finished ∧
    ∀ task, ((sampleAfter sampleEnded).tasks task).over = true := by
  have hreach : sampleTasks.Reachable (sampleAfter sampleEnded) :=
    sampleAfter_reachable sampleEnded (by decide +kernel)
  have hend : (sampleAfter sampleEnded).main.Finished := finished_of_isFinished (by decide +kernel)
  have hquiet : interrupted (sampleAfter sampleEnded).trace = false := by decide +kernel
  exact ⟨hreach, hend, (no_task_left_iff hreach hend).mpr hquiet _ hreach hend rfl⟩

/-- In the second one `execute` has raised, and the sampler goes on. -/
theorem docker_kill_leaves_sampler :
    ¬ ∀ s, sampleTasks.Reachable s → s.main.Finished → ∀ task, (s.tasks task).over = true := by
  intro hall
  have hstate : ((sampleAfter sampleKill).tasks .sampler) = .running (.sleeping true) false := by
    decide +kernel
  have hover := hall _ (sampleAfter_reachable sampleKill (by decide +kernel))
    (finished_of_isFinished (by decide +kernel)) .sampler
  rw [hstate] at hover
  cases hover

end CodeInterpreter.Executor
