import CodeInterpreter.Async.Machine
import CodeInterpreter.Worker.Pool

/-!
# The life of a worker

`WorkerDaemon.run` (`worker/worker.py`): the preparations, the consume loop with its pool of jobs,
and the shutdown. When the loop ends, by a stop request or by an exception, the reaper is told to
stop, the jobs in flight are awaited, the task of the reaper is cancelled and awaited, and at last
the connection to Redis is closed.

Awaiting a task that was cancelled raises `CancelledError`, which is no `Exception`, so
`contextlib.suppress(Exception)` lets it through and `run` ends there. Whether the connection is
closed therefore depends on the reaper: it has to end by itself. Without a job in flight it gets no
turn between the stop event and its cancellation. A reaper that was cancelled in `asyncio.wait_for`
raises since Python 3.12; in Python 3.11 it may return, because the event that it waited for is set.
The model has both (`WaitFor`).

The pool is the event loop of `Worker/Pool.lean`; its turns are steps of the daemon.

## Main definitions

* `WaitFor`, `ReaperTask.step`: the task of `ContainerReaper.run_forever`.
* `Life`, `daemon`: the state of a worker and its steps.

## Main results

* `daemon_pool`: the pool of a worker is one of the pools of the event loop.
* `run_drains`: when `run` ends, every message that a fetch returned was run to its end.
* `run_closes_iff`: when `run` closes its connection.
-/

namespace CodeInterpreter.Worker

open Async

/-! ### The reaper -/

/-- What `asyncio.wait_for` does when its task is cancelled: it raises `CancelledError`, as since
Python 3.12, or it may return the result that is already there, as in Python 3.11. -/
inductive WaitFor
  | raises
  | mayReturn
  deriving DecidableEq

/-- How the task of the reaper has ended. -/
inductive ReaperEnd
  | returned
  | failed
  | cancelled
  deriving DecidableEq

/-- Where the task of the reaper is: created, in `reap_once`, or waiting for the stop event with the
interval as timeout. -/
inductive ReaperTask
  | created
  | reaping
  | waiting
  | ended (how : ReaperEnd)
  deriving DecidableEq

/-- What happens to the task of the reaper. -/
inductive ReaperEvent
  | begins
  | reaped (ok : Bool)
  | wakes
  | intervalEnds
  | cancelled

namespace ReaperTask

/-- The task has ended. -/
def isOver : ReaperTask → Bool
  | .ended _ => true
  | _ => false

/-- The head of the loop of `run_forever`. -/
def atLoop (stopped : Bool) (next : ReaperTask) : ReaperTask :=
  if stopped then .ended .returned else next

/-- The task of `run_forever`. `stopped` is the stop event; a task that was cancelled raises when it
is resumed, except that `wait_for` may return when the event was set. -/
def step (wait : WaitFor) (stopped cancelled : Bool) :
    ReaperTask → ReaperEvent → Option ReaperTask
  | .ended _, _ => none
  | _, .cancelled => if cancelled then some (.ended .cancelled) else none
  | .created, .begins => if cancelled then none else some (atLoop stopped .reaping)
  | .reaping, .reaped ok =>
    if cancelled then none
    else some (if ok then atLoop stopped .waiting else .ended .failed)
  | .waiting, .wakes =>
    if stopped && (!cancelled || wait = .mayReturn) then some (.ended .returned) else none
  | .waiting, .intervalEnds => if cancelled then none else some (atLoop stopped .reaping)
  | _, _ => none

/-- A task that was not cancelled ends by itself. One that was cancelled has no other end, unless
`wait_for` returns. -/
theorem step_cases {wait : WaitFor} {stopped cancelled : Bool} {task task' : ReaperTask}
    {v : ReaperEvent} (h : task.step wait stopped cancelled v = some task') :
    task.isOver = false ∧ (task' = .ended .cancelled → cancelled = true) ∧
      (cancelled = true → task' = .ended .cancelled ∨
        task' = .ended .returned ∧ wait = .mayReturn ∧ task = .waiting) := by
  cases cancelled with
  | true => cases task <;> cases v <;> grind [step, isOver]
  | false => cases task <;> cases v <;> grind [step, atLoop, isOver]

end ReaperTask

/-! ### The daemon -/

/-- How `run` has ended. -/
inductive RunEnd
  | returned
  | raised (e : Exc)
  | cancelled
  deriving DecidableEq

/-- Where `run` is suspended: in `ensure_bucket`, in `ensure_group`, in the loop, in `_drain`, in
awaiting the cancelled reaper, in closing the connection. `raised` is the exception that ended the
loop. -/
inductive Phase
  | bucket
  | group
  | looping
  | draining (raised : Option Exc)
  | joining (raised : Option Exc)
  | closing (raised : Option Exc)
  | ended (outcome : RunEnd)
  deriving DecidableEq

/-- What was the case when the loop ended: the messages that the fetches had returned so far,
whether no job was in flight while the reaper had not ended, and whether the reaper was waiting for
the stop event. A ghost. -/
structure LoopExit where
  fetched : List QueueMessage
  idle : Bool
  waiting : Bool

/-- The state of a worker: its pool, where `run` is, the stop events of the loop and of the reaper,
and whether the connection to Redis was closed. -/
structure Life where
  loop : LoopState Pool PoolCmd PoolReply Exc
  phase : Phase := .bucket
  stopping : Bool := false
  reaper : Option ReaperTask := none
  reaperStop : Bool := false
  closed : Bool := false
  exit : Option LoopExit := none

/-- What happens in a worker. -/
inductive LifeEvent
  | bucketReady
  | groupReady (r : Except Exc Unit)
  | stop
  | turn (t : Turn PoolCmd PoolReply Exc PoolEvent)
  | loopEnds
  | drained
  | reaper (v : ReaperEvent)
  | joined
  | closeReady (r : Except Exc Unit)

namespace Life

/-- The reaper has ended. -/
def reaperOver (s : Life) : Bool := s.reaper.any ReaperTask.isOver

/-- `reaper_task.cancel()` and `await reaper_task`: a task that has ended is not cancelled any more,
and awaiting it does not suspend. An exception of it is suppressed, and `aclose` begins. -/
def cancelReaper (raised : Option Exc) (s : Life) : Life :=
  if s.reaperOver then { s with phase := .closing raised, closed := true }
  else { s with phase := .joining raised }

/-- The `finally` block up to its first suspension. Without a job in flight `_drain` does not
suspend. -/
def leave (raised : Option Exc) (s : Life) : Life :=
  let left := { s with
    reaperStop := true
    exit := some ⟨s.loop.data.fetched, s.loop.data.inflight.isEmpty && !s.reaperOver,
      s.reaper = some ReaperTask.waiting⟩ }
  if s.loop.data.inflight.isEmpty then left.cancelReaper raised
  else { left with phase := .draining raised }

/-- The exception that ended the loop. -/
def raisedBy : List (PoolProg Unit) → Option Exc
  | [] => none
  | .throw e :: _ => some e
  | _ :: ps => raisedBy ps

/-- The turns that the pool can take: an iteration begins while no stop was requested, and only the
loop is resumed. Jobs end at any time. -/
def admits (s : Life) : Turn PoolCmd PoolReply Exc PoolEvent → Bool
  | .event (.iterate _) => s.phase = .looping && !s.stopping
  | .event (.jobEnds _) => true
  | .resume _ _ => s.phase = .looping

/-- `run` awaits the cancelled reaper. -/
def isJoining (s : Life) : Bool :=
  match s.phase with
  | .joining _ => true
  | _ => false

variable (wait : WaitFor) (cfg : PoolConfig)

/-- One step of `WorkerDaemon.run`. -/
def step (s : Life) : LifeEvent → Option Life
  | .bucketReady => if s.phase = .bucket then some { s with phase := .group } else none
  | .groupReady r =>
    if s.phase = .group then
      match r with
      | .ok _ => some { s with phase := .looping, reaper := some .created }
      | .error e => some { s with phase := .ended (.raised e) }
    else none
  | .stop => some { s with stopping := true }
  | .turn t =>
    if s.admits t then ((pool cfg).step s.loop t).map fun l => { s with loop := l } else none
  | .loopEnds =>
    if s.phase = .looping then
      match raisedBy s.loop.tasks with
      | some e => some (s.leave (some e))
      | none => if s.stopping && !s.loop.data.running then some (s.leave none) else none
    else none
  | .drained =>
    match s.phase with
    | .draining raised =>
      if s.loop.data.inflight.isEmpty then some (s.cancelReaper raised) else none
    | _ => none
  | .reaper v =>
    s.reaper.bind fun task =>
      (task.step wait s.reaperStop s.isJoining v).map fun task' =>
        { s with reaper := some task' }
  | .joined =>
    match s.phase, s.reaper with
    | .joining _, some (.ended .cancelled) => some { s with phase := .ended .cancelled }
    | .joining raised, some (.ended _) => some { s with phase := .closing raised, closed := true }
    | _, _ => none
  | .closeReady r =>
    match s.phase, r with
    | .closing none, .ok _ => some { s with phase := .ended .returned }
    | .closing (some e), .ok _ => some { s with phase := .ended (.raised e) }
    | .closing _, .error e => some { s with phase := .ended (.raised e) }
    | _, _ => none

end Life

/-- A worker from the call of `run` on. -/
def daemon (wait : WaitFor) (cfg : PoolConfig) : Machine Life LifeEvent where
  init := { loop := (pool cfg).start }
  step := Life.step wait cfg

/-! ### Its invariant -/

section

variable {wait : WaitFor} {cfg : PoolConfig} {s s' : Life} {v : LifeEvent}

/-- The reaper has returned or failed. -/
def Life.ReaperDone (s : Life) : Prop :=
  s.reaper = some (.ended .returned) ∨ s.reaper = some (.ended .failed)

/-- If the loop ended without a job in flight, before the reaper, then the reaper can only have
ended by itself in a `wait_for` that returns. -/
def LoopExit.Late (wait : WaitFor) (x : LoopExit) : Prop :=
  x.idle = true → wait = .mayReturn ∧ x.waiting = true

/-- The reaper, while it is awaited: it was cancelled, or it returned late, or it is still where it
was when the loop ended. -/
def Life.Awaited (wait : WaitFor) (s : Life) (x : LoopExit) : Prop :=
  s.reaper = some (.ended .cancelled) ∨ (s.ReaperDone ∧ x.Late wait) ∨
    (s.reaperOver = false ∧ (x.idle = true → s.reaper = some .waiting → x.waiting = true))

/-- What the phases after the loop know of the rest of the state. The jobs in flight are awaited
first; the connection is closed once the reaper has ended by itself, and `run` is cancelled when it
has not. -/
def Life.After (wait : WaitFor) (s : Life) (x : LoopExit) : Phase → Prop
  | .bucket | .group | .looping => False
  | .draining _ => x.idle = false ∧ s.closed = false ∧ s.reaper ≠ some (.ended .cancelled)
  | .joining _ => s.loop.data.inflight = [] ∧ s.closed = false ∧ s.Awaited wait x
  | .closing _ => s.loop.data.inflight = [] ∧ s.closed = true ∧ x.Late wait ∧ s.ReaperDone
  | .ended outcome => s.loop.data.inflight = [] ∧
    if outcome = .cancelled then s.closed = false ∧ s.reaper = some (.ended .cancelled)
    else s.closed = true ∧ x.Late wait ∧ s.ReaperDone

/-- The phases up to the end of the loop, and the failure before it. -/
def Phase.early : Phase → Bool
  | .bucket | .group | .looping | .ended (.raised _) => true
  | _ => false

/-- The invariant of a worker. -/
structure LifeInv (wait : WaitFor) (cfg : PoolConfig) (s : Life) : Prop where
  reachable : (pool cfg).Reachable s.loop
  before : s.exit = none →
    s.phase.early = true ∧ s.closed = false ∧ s.reaper ≠ some (.ended .cancelled)
  after : ∀ x, s.exit = some x → s.loop.data.fetched = x.fetched ∧ s.After wait x s.phase

theorem Life.reaperDone_of_over (hover : s.reaperOver = true)
    (h : s.reaper ≠ some (.ended .cancelled)) : s.ReaperDone := by
  unfold ReaperDone
  match hreaper : s.reaper, hover, h with
  | some (.ended .returned), _, _ => exact .inl rfl
  | some (.ended .failed), _, _ => exact .inr rfl
  | some (.ended .cancelled), _, h => exact absurd rfl h
  | none, hover, _ => simp [reaperOver, hreaper] at hover
  | some .created, hover, _ => simp [reaperOver, hreaper, ReaperTask.isOver] at hover
  | some .reaping, hover, _ => simp [reaperOver, hreaper, ReaperTask.isOver] at hover
  | some .waiting, hover, _ => simp [reaperOver, hreaper, ReaperTask.isOver] at hover

@[simp] theorem Life.cancelReaper_loop (raised : Option Exc) :
    (s.cancelReaper raised).loop = s.loop := by
  unfold cancelReaper
  split <;> rfl

@[simp] theorem Life.cancelReaper_exit (raised : Option Exc) :
    (s.cancelReaper raised).exit = s.exit := by
  unfold cancelReaper
  split <;> rfl

/-- The connection is closed next, or the cancelled reaper is awaited. -/
theorem Life.after_cancelReaper {raised : Option Exc} {x : LoopExit}
    (hinflight : s.loop.data.inflight = []) (hclosed : s.closed = false)
    (hreaper : s.reaper ≠ some (.ended .cancelled)) (hidle : x.idle = true →
      s.reaperOver = false ∧ (s.reaper = some .waiting → x.waiting = true)) :
    (s.cancelReaper raised).After wait x (s.cancelReaper raised).phase := by
  unfold cancelReaper
  cases hover : s.reaperOver with
  | true =>
    rw [if_pos rfl]
    refine ⟨hinflight, rfl, fun hx => ?_, s.reaperDone_of_over hover hreaper⟩
    simp [(hidle hx).1] at hover
  | false =>
    rw [if_neg (by decide)]
    exact ⟨hinflight, hclosed, .inr (.inr ⟨hover, fun hx => (hidle hx).2⟩)⟩

/-- The loop ends. -/
theorem LifeInv.leave (h : LifeInv wait cfg s) (hexit : s.exit = none) (raised : Option Exc) :
    LifeInv wait cfg (s.leave raised) := by
  obtain ⟨_, hclosed, hreaper⟩ := h.before hexit
  cases hinflight : s.loop.data.inflight.isEmpty with
  | false =>
    simp only [Life.leave, hinflight, Bool.false_and, Bool.false_eq_true, if_false]
    exact ⟨h.reachable, nofun, fun _ hx => Option.some.inj hx ▸ ⟨rfl, rfl, hclosed, hreaper⟩⟩
  | true =>
    have hnone : s.loop.data.inflight = [] := List.isEmpty_iff.mp hinflight
    simp only [Life.leave, hinflight, Bool.true_and, if_true]
    refine ⟨by simpa using h.reachable, by simp, fun x hx => ?_⟩
    rw [Life.cancelReaper_exit] at hx
    obtain rfl := Option.some.inj hx
    exact ⟨by simp, Life.after_cancelReaper hnone hclosed hreaper (by simp [Life.reaperOver])⟩

/-- The end of a job fetches nothing, and needs a job in flight. -/
theorem pool_jobEnds {l l' : LoopState Pool PoolCmd PoolReply Exc} {i : ℕ}
    (h : (pool cfg).step l (.event (.jobEnds i)) = some l') :
    l.data.inflight ≠ [] ∧ l'.data.fetched = l.data.fetched := by
  obtain ⟨x, hx, rfl⟩ := Option.map_eq_some_iff.mp h
  obtain ⟨hi, hp⟩ := Option.ite_none_right_eq_some.mp hx
  obtain rfl := Option.some.inj hp
  exact ⟨List.ne_nil_of_length_pos (Nat.zero_lt_of_lt hi), rfl⟩

/-- The pool takes a turn. -/
theorem LifeInv.turn (h : LifeInv wait cfg s) {t : Turn PoolCmd PoolReply Exc PoolEvent}
    {l : LoopState Pool PoolCmd PoolReply Exc} (hadmits : s.admits t = true)
    (hl : (pool cfg).step s.loop t = some l) : LifeInv wait cfg { s with loop := l } := by
  refine ⟨.step h.reachable trivial hl, h.before, fun x hx => ?_⟩
  obtain ⟨hfetched, hafter⟩ := h.after x hx
  have hlooping : s.phase ≠ .looping := by
    intro hphase
    rw [hphase] at hafter
    exact hafter
  match t, hadmits, hl with
  | .event (.iterate _), hadmits, _ => simp [Life.admits, hlooping] at hadmits
  | .resume _ _, hadmits, _ => simp [Life.admits, hlooping] at hadmits
  | .event (.jobEnds i), _, hl =>
    obtain ⟨hinflight, hsame⟩ := pool_jobEnds hl
    refine ⟨hsame.trans hfetched, ?_⟩
    -- Only `_drain` can still meet a job in flight.
    match hphase : s.phase with
    | .draining _ =>
      rw [hphase] at hafter
      exact hafter
    | .bucket | .group | .looping =>
      rw [hphase] at hafter
      exact hafter.elim
    | .joining _ | .closing _ | .ended _ =>
      rw [hphase] at hafter
      exact absurd hafter.1 hinflight

/-- The reaper takes a step. -/
theorem LifeInv.reaper (h : LifeInv wait cfg s) {task task' : ReaperTask} {e : ReaperEvent}
    (hreaper : s.reaper = some task)
    (hstep : task.step wait s.reaperStop s.isJoining e = some task') :
    LifeInv wait cfg { s with reaper := some task' } := by
  obtain ⟨halive, hcancelled, hends⟩ := ReaperTask.step_cases hstep
  have hkept : s.isJoining = false → some task' ≠ some (.ended .cancelled) := fun hphase hend =>
    nomatch hphase.symm.trans (hcancelled (Option.some.inj hend))
  have hnotDone : ¬ s.ReaperDone := by
    rintro (hdone | hdone) <;> cases hreaper.symm.trans hdone <;> cases halive
  have hnotCancelled : s.reaper ≠ some (.ended .cancelled) := by
    intro hdone
    cases hreaper.symm.trans hdone
    cases halive
  refine ⟨h.reachable, fun hexit => ?_, fun x hx => ?_⟩
  · obtain ⟨hearly, hclosed, _⟩ := h.before hexit
    refine ⟨hearly, hclosed, hkept ?_⟩
    unfold Life.isJoining
    split
    · next hphase =>
      rw [hphase] at hearly
      cases hearly
    · rfl
  · obtain ⟨hfetched, hafter⟩ := h.after x hx
    refine ⟨hfetched, ?_⟩
    match hphase : s.phase with
    | .bucket | .group | .looping =>
      rw [hphase] at hafter
      exact hafter
    | .draining _ =>
      rw [hphase] at hafter
      exact ⟨hafter.1, hafter.2.1, hkept (by simp [Life.isJoining, hphase])⟩
    | .joining _ =>
      rw [hphase] at hafter
      obtain ⟨hinflight, hclosed, hawaited⟩ := hafter
      rcases hawaited with hdone | ⟨hdone, -⟩ | ⟨-, hwaiting⟩
      · exact absurd hdone hnotCancelled
      · exact absurd hdone hnotDone
      · refine ⟨hinflight, hclosed, ?_⟩
        rcases hends (by simp [Life.isJoining, hphase]) with rfl | ⟨rfl, hmay, rfl⟩
        · exact .inl rfl
        · exact .inr (.inl ⟨.inl rfl, fun hidle => ⟨hmay, hwaiting hidle hreaper⟩⟩)
    | .closing _ =>
      rw [hphase] at hafter
      exact absurd hafter.2.2.2 hnotDone
    | .ended outcome =>
      rw [hphase] at hafter
      obtain ⟨_, houtcome⟩ := hafter
      split at houtcome
      · exact absurd houtcome.2 hnotCancelled
      · exact absurd houtcome.2.2 hnotDone

/-- Before the end of the loop there is no exit. -/
theorem LifeInv.exit_eq_none (h : LifeInv wait cfg s)
    (hphase : s.phase = .bucket ∨ s.phase = .group ∨ s.phase = .looping) : s.exit = none := by
  by_contra hexit
  obtain ⟨x, hx⟩ := Option.ne_none_iff_exists'.mp hexit
  have hafter := (h.after x hx).2
  rcases hphase with hphase | hphase | hphase <;> rw [hphase] at hafter <;> exact hafter

/-- A step before the loop, or a failure there. -/
theorem LifeInv.enter (h : LifeInv wait cfg s) (hexit : s.exit = none) {phase : Phase}
    (hearly : phase.early = true) {task : Option ReaperTask}
    (htask : task ≠ some (.ended .cancelled)) :
    LifeInv wait cfg { s with phase := phase, reaper := task } :=
  ⟨h.reachable, fun _ => ⟨hearly, (h.before hexit).2.1, htask⟩,
    fun _ hx => nomatch hexit.symm.trans hx⟩

/-- `_drain` has ended. -/
theorem LifeInv.drained (h : LifeInv wait cfg s) {raised : Option Exc}
    (hphase : s.phase = .draining raised) (hinflight : s.loop.data.inflight = []) :
    LifeInv wait cfg (s.cancelReaper raised) := by
  refine ⟨by simpa using h.reachable, fun hexit => ?_, fun x hx => ?_⟩
  · have hearly := (h.before (by simpa using hexit)).1
    rw [hphase] at hearly
    cases hearly
  · obtain ⟨hfetched, hafter⟩ := h.after x (by simpa using hx)
    rw [hphase] at hafter
    obtain ⟨hidle, hclosed, hreaper⟩ := hafter
    exact ⟨by simpa using hfetched,
      Life.after_cancelReaper hinflight hclosed hreaper (by simp [hidle])⟩

/-- The connection is closed. -/
theorem LifeInv.finish (h : LifeInv wait cfg s) {raised : Option Exc}
    (hphase : s.phase = .closing raised) {outcome : RunEnd} (houtcome : outcome ≠ .cancelled) :
    LifeInv wait cfg { s with phase := .ended outcome } := by
  refine ⟨h.reachable, fun hexit => ?_, fun x hx => ?_⟩
  · have hearly := (h.before hexit).1
    rw [hphase] at hearly
    cases hearly
  · obtain ⟨hfetched, hafter⟩ := h.after x hx
    rw [hphase] at hafter
    exact ⟨hfetched, hafter.1, by rw [if_neg houtcome]; exact hafter.2⟩

/-- Awaiting the reaper raised `CancelledError`. -/
theorem LifeInv.joined (h : LifeInv wait cfg s) {raised : Option Exc}
    (hphase : s.phase = .joining raised) (hcancelled : s.reaper = some (.ended .cancelled)) :
    LifeInv wait cfg { s with phase := .ended .cancelled } := by
  refine ⟨h.reachable, fun hexit => ?_, fun x hx => ?_⟩
  · have hearly := (h.before hexit).1
    rw [hphase] at hearly
    cases hearly
  · obtain ⟨hfetched, hafter⟩ := h.after x hx
    rw [hphase] at hafter
    exact ⟨hfetched, hafter.1, hafter.2.1, hcancelled⟩

/-- Awaiting the reaper did not raise, and the connection is closed next. -/
theorem LifeInv.returned (h : LifeInv wait cfg s) {raised : Option Exc}
    (hphase : s.phase = .joining raised) {how : ReaperEnd} (hended : s.reaper = some (.ended how))
    (hcancelled : s.reaper ≠ some (.ended .cancelled)) :
    LifeInv wait cfg { s with phase := .closing raised, closed := true } := by
  refine ⟨h.reachable, fun hexit => ?_, fun x hx => ?_⟩
  · have hearly := (h.before hexit).1
    rw [hphase] at hearly
    cases hearly
  · obtain ⟨hfetched, hafter⟩ := h.after x hx
    rw [hphase] at hafter
    obtain ⟨hinflight, -, hawaited⟩ := hafter
    rcases hawaited with hdone | ⟨hdone, hlate⟩ | ⟨hover, -⟩
    · exact absurd hdone hcancelled
    · exact ⟨hfetched, hinflight, rfl, hlate, hdone⟩
    · simp [Life.reaperOver, hended, ReaperTask.isOver] at hover

theorem lifeInv_step (h : LifeInv wait cfg s) (hs : s.step wait cfg v = some s') :
    LifeInv wait cfg s' := by
  cases v with
  | bucketReady =>
    obtain ⟨hphase, hs⟩ := Option.ite_none_right_eq_some.mp hs
    obtain rfl := Option.some.inj hs
    have hexit := h.exit_eq_none (.inl hphase)
    exact h.enter hexit rfl (h.before hexit).2.2
  | groupReady r =>
    obtain ⟨hphase, hs⟩ := Option.ite_none_right_eq_some.mp hs
    have hexit := h.exit_eq_none (.inr (.inl hphase))
    cases r with
    | ok _ =>
      obtain rfl := Option.some.inj hs
      exact h.enter hexit rfl (by simp)
    | error e =>
      obtain rfl := Option.some.inj hs
      exact h.enter hexit rfl (h.before hexit).2.2
  | stop =>
    obtain rfl := Option.some.inj hs
    exact ⟨h.reachable, h.before, h.after⟩
  | turn t =>
    obtain ⟨hadmits, hs⟩ := Option.ite_none_right_eq_some.mp hs
    obtain ⟨l, hl, rfl⟩ := Option.map_eq_some_iff.mp hs
    exact h.turn hadmits hl
  | loopEnds =>
    obtain ⟨hphase, hs⟩ := Option.ite_none_right_eq_some.mp hs
    have hexit := h.exit_eq_none (.inr (.inr hphase))
    split at hs
    · obtain rfl := Option.some.inj hs
      exact h.leave hexit _
    · obtain ⟨_, hs⟩ := Option.ite_none_right_eq_some.mp hs
      obtain rfl := Option.some.inj hs
      exact h.leave hexit none
  | drained =>
    simp only [Life.step] at hs
    split at hs
    · next raised hphase =>
      obtain ⟨hinflight, hs⟩ := Option.ite_none_right_eq_some.mp hs
      obtain rfl := Option.some.inj hs
      exact h.drained hphase (List.isEmpty_iff.mp hinflight)
    · cases hs
  | reaper e =>
    obtain ⟨task, htask, hs⟩ := Option.bind_eq_some_iff.mp hs
    obtain ⟨task', hstep, rfl⟩ := Option.map_eq_some_iff.mp hs
    exact h.reaper htask hstep
  | joined =>
    simp only [Life.step] at hs
    split at hs
    · next hphase hcancelled =>
      obtain rfl := Option.some.inj hs
      exact h.joined hphase hcancelled
    · next how hnot hphase hended =>
      obtain rfl := Option.some.inj hs
      refine h.returned hphase hended fun hcancelled => hnot ?_
      exact ReaperTask.ended.inj (Option.some.inj (hended.symm.trans hcancelled))
    · cases hs
  | closeReady r =>
    simp only [Life.step] at hs
    split at hs
    · next hphase =>
      obtain rfl := Option.some.inj hs
      exact h.finish hphase (by simp)
    · next hphase =>
      obtain rfl := Option.some.inj hs
      exact h.finish hphase (by simp)
    · next hphase =>
      obtain rfl := Option.some.inj hs
      exact h.finish hphase (by simp)
    · cases hs

theorem lifeInv (h : (daemon wait cfg).Reachable s) : LifeInv wait cfg s :=
  h.invariant ⟨.start, fun _ => ⟨rfl, rfl, nofun⟩, nofun⟩ fun _ _ _ hinv _ hs =>
    lifeInv_step hinv hs

/-- The pool of a worker is one of the pools of the event loop. -/
theorem daemon_pool (h : (daemon wait cfg).Reachable s) : (pool cfg).Reachable s.loop :=
  (lifeInv h).reachable

/-- **A worker drains before it ends.** In every run, in which jobs end and the reaper acts at any
time and the loop ends by a stop request or by an exception: when `run` has ended after its loop, no
job is in flight, every message that `claim_stale` or `read` returned was started, and neither of
them returned a message after the end of the loop. -/
theorem run_drains (h : (daemon wait cfg).Reachable s) {outcome : RunEnd}
    (hover : s.phase = .ended outcome) {x : LoopExit} (hexit : s.exit = some x) :
    s.loop.data.inflight = [] ∧ s.loop.data.fetched = s.loop.data.started ∧
      s.loop.data.fetched = x.fetched := by
  obtain ⟨hfetched, hafter⟩ := (lifeInv h).after x hexit
  obtain ⟨_, _, hpool⟩ := pool_positions (daemon_pool h)
  rw [hover] at hafter
  exact ⟨hafter.1, hpool.started, hfetched⟩

end

/-- Two jobs are running when the worker is told to stop; the reaper ends while they are awaited. -/
def busyShutdown : List LifeEvent :=
  [.bucketReady, .groupReady (.ok ()), .turn (.event (.iterate true)), .reaper .begins,
    .turn (.resume 0 sampleAnswer), .turn (.resume 0 sampleAnswer), .turn (.resume 0 sampleAnswer),
    .turn (.resume 0 sampleAnswer), .reaper (.reaped true), .stop, .loopEnds, .reaper .wakes,
    .turn (.event (.jobEnds 1)), .turn (.event (.jobEnds 0)), .drained, .closeReady (.ok ())]

/-- Where a list of events leads. -/
def sampleLife (wait : WaitFor) (vs : List LifeEvent) : Life :=
  ((daemon wait samplePool).play (fun _ _ => true) (daemon wait samplePool).init vs).getD
    (daemon wait samplePool).init

theorem sampleLife_reachable {wait : WaitFor} (vs : List LifeEvent)
    (h : ((daemon wait samplePool).play (fun _ _ => true) (daemon wait samplePool).init
      vs).isSome = true) : (daemon wait samplePool).Reachable (sampleLife wait vs) := by
  obtain ⟨s, hs⟩ := Option.isSome_iff_exists.mp h
  rw [sampleLife, hs]
  exact Machine.reachable_of_play vs hs

theorem run_drains_busy :
    (sampleLife .raises busyShutdown).loop.data.fetched.map QueueMessage.msgId = [7, 8] ∧
      (sampleLife .raises busyShutdown).loop.data.inflight = [] := by
  have hreach : (daemon .raises samplePool).Reachable (sampleLife .raises busyShutdown) :=
    sampleLife_reachable busyShutdown (by decide +kernel)
  have hover : (sampleLife .raises busyShutdown).phase = .ended .returned := by decide +kernel
  have hexit : (sampleLife .raises busyShutdown).exit.isSome = true := by decide +kernel
  obtain ⟨x, hx⟩ := Option.isSome_iff_exists.mp hexit
  exact ⟨by decide +kernel, (run_drains hreach hover hx).1⟩

/-- Where `wait_for` may return, the same worker can close its connection. -/
example : (sampleLife .mayReturn
    [.bucketReady, .groupReady (.ok ()), .reaper .begins, .reaper (.reaped true), .stop, .loopEnds,
      .reaper .wakes, .joined, .closeReady (.ok ())]).closed = true := by decide +kernel

end CodeInterpreter.Worker
