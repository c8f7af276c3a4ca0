import CodeInterpreter.Async.Loop
import CodeInterpreter.Worker.Daemon

/-!
# The job pool of a worker

The consume loop of a worker (`worker/worker.py`) and its pool of jobs on one event loop. The loop
computes how many slots are free, fetches at most that many messages, and starts each of them after
it got a permit of the semaphore. Meanwhile jobs end, at any await, normally or by an exception; the
two done-callbacks of a job run back to back, so its task leaves the pool when its permit comes
back.

An iteration of the loop is one task; the next one may start when it has ended. What Redis answers
is arbitrary within the requested counts.

## Main definitions

* `PoolCmd`, `fetch`, `iteration`, `Pool`, `pool`: one iteration, and the event loop it runs in.
* `PoolPos`: where an iteration can be suspended.

## Main results

* `advance_dispatchAll`: messages for which there are permits are all started in one turn.
* `pool_positions`: the invariant of the pool.
* `pool_never_overcommits`: the bound on the tasks, and no message that a fetch returned ever waits
  for a permit.
-/

namespace CodeInterpreter.Worker

open Async

/-! ### The loop -/

/-- The commands of the consume loop: those of Redis, the arithmetic of the pool, the permits of the
semaphore and the tasks. `returned` is a ghost, which notes what a fetch returned. -/
inductive PoolCmd
  | redis (c : Cmd)
  | capacity
  | sleep
  | acquire
  | createTask (message : QueueMessage)
  | returned (messages : List QueueMessage)
  | again

/-- The type of the reply to a command. -/
abbrev PoolReply : PoolCmd → Type
  | .redis c => Reply c
  | .capacity => ℤ
  | _ => Unit

/-- A program of the consume loop. -/
abbrev PoolProg := Async.Program PoolCmd PoolReply Exc

/-- Issue one command. -/
abbrev ask (c : PoolCmd) : PoolProg (PoolReply c) := Async.perform c

/-- A program that only talks to Redis. -/
def onRedis {α : Type} (p : Prog α) : PoolProg α := p.embed PoolCmd.redis fun _ r => r

/-- The settings of the consume loop. -/
structure PoolConfig where
  worker : WorkerConfig
  workerConcurrency : ℕ
  readCount : ℕ

/-- `aioredis.RedisError`, as far as the exceptions of the model tell. -/
def isRedisError : Exc → Bool
  | .redisResponse | .other => true
  | _ => false

/-- A call of `claim_stale` or `read`; the ghost notes the messages that it returns. -/
def fetch (p : Prog (List QueueMessage)) : PoolProg (List QueueMessage) := do
  let messages ← onRedis p
  ask (.returned messages)
  return messages

/-- The calls of `_dispatch` for the messages of a batch. -/
def dispatchAll : List QueueMessage → PoolProg Unit
  | [] => pure ()
  | message :: rest => do
    ask .acquire
    ask (.createTask message)
    dispatchAll rest

variable (cfg : PoolConfig)

/-- The second half of an iteration: read new messages into the slots that are left. -/
def readNew : PoolProg Unit := do
  let capacity : ℤ ← ask .capacity
  if capacity ≤ 0 then pure ()
  else
    let new ← fetch (read true cfg.worker.workerId (min cfg.readCount capacity.toNat))
    dispatchAll new

/-- What follows `claim_stale`. -/
def afterClaim (stale : List QueueMessage) : PoolProg Unit := do
  dispatchAll stale
  readNew cfg

/-- `_backoff` after a Redis error; any other exception ends the loop. -/
def onError (e : Exc) : PoolProg Unit := if isRedisError e then ask .sleep else throw e

/-- The `try` statement of the loop around what is left of its body, and the end of the
iteration. -/
def guarded (p : PoolProg Unit) : PoolProg Unit := do
  tryCatch p onError
  ask .again

/-- One iteration of `WorkerDaemon._consume_loop`; `ready` says whether the group is known. -/
def iteration (ready : Bool) : PoolProg Unit := guarded do
  let capacity : ℤ ← ask .capacity
  if capacity ≤ 0 then ask .sleep
  else
    let _ ← onRedis queueDepth
    let stale ← fetch (claimStale ready cfg.worker.workerId cfg.worker.claimMinIdleMs
      (min cfg.readCount capacity.toNat))
    afterClaim cfg stale

/-! ### The event loop -/

/-- The state of a worker: the value of its semaphore, the jobs in flight and whether an iteration
is under way; the messages that the fetches returned and those that were started are ghosts. -/
structure Pool where
  permits : ℕ
  inflight : List QueueMessage := []
  running : Bool := false
  fetched : List QueueMessage := []
  started : List QueueMessage := []

/-- `worker_concurrency - len(inflight)`. -/
def Pool.capacity (d : Pool) : ℤ := cfg.workerConcurrency - d.inflight.length

/-- What happens outside the loop: the next iteration begins, or a job ends. -/
inductive PoolEvent
  | iterate (ready : Bool)
  | jobEnds (i : ℕ)

/-- Redis returns no more entries than were asked for. -/
def withinCount : (c : Cmd) → Except Exc (Reply c) → Bool
  | .xpendingRange count _, .ok entries => entries.length ≤ count
  | .xclaim _ _ _, .ok entries => entries.length ≤ 1
  | .xreadgroup _ count, .ok entries => entries.length ≤ count
  | _, _ => true

/-- The event loop of a worker. Acquiring a permit suspends the loop only when there is none. -/
def pool : Loop Pool PoolCmd PoolReply Exc PoolEvent where
  init := { permits := cfg.workerConcurrency }
  issue d
    | .redis _ => (d, none)
    | .capacity => (d, some (d.capacity cfg))
    | .sleep => (d, none)
    | .acquire =>
      if d.permits = 0 then (d, none) else ({ d with permits := d.permits - 1 }, some ())
    | .createTask message =>
      ({ d with inflight := d.inflight ++ [message], started := d.started ++ [message] }, some ())
    | .returned messages => ({ d with fetched := d.fetched ++ messages }, some ())
    | .again => ({ d with running := false }, some ())
  complete d
    | .redis c, r => if withinCount c r then some d else none
    | .sleep, .ok _ => some d
    | .acquire, .ok _ => if d.permits = 0 then none else some { d with permits := d.permits - 1 }
    | _, _ => none
  event d
    | .iterate ready => if d.running then none else some ({ d with running := true },
        iteration cfg ready)
    | .jobEnds i =>
      if i < d.inflight.length then
        some ({ d with inflight := d.inflight.eraseIdx i, permits := d.permits + 1 }, pure ())
      else none

/-! ### Positions -/

/-- Where an iteration can be: asleep because no slot is free, in one of the commands of Redis,
asleep after an error, at its end, or ended for good by an exception. -/
inductive PoolPos
  | full
  | depth (ready : Bool) (batch : ℕ)
  | group (batch : ℕ)
  | pending (batch : ℕ)
  | claiming (entry : ℕ × ℕ) (rest : List (ℕ × ℕ)) (claimed : List QueueMessage)
  | reading (count : ℕ)
  | backoff
  | ended
  | dead (e : Exc)

namespace PoolPos

/-- The program that is left at a position. -/
def prog : PoolPos → PoolProg Unit
  | .full => guarded (ask .sleep)
  | .depth ready batch => guarded do
    let _ ← onRedis queueDepth
    let stale ← fetch (claimStale ready cfg.worker.workerId cfg.worker.claimMinIdleMs batch)
    afterClaim cfg stale
  | .group batch => guarded do
    let stale ← fetch (claimStale false cfg.worker.workerId cfg.worker.claimMinIdleMs batch)
    afterClaim cfg stale
  | .pending batch => guarded do
    let stale ← fetch (claimStale true cfg.worker.workerId cfg.worker.claimMinIdleMs batch)
    afterClaim cfg stale
  | .claiming entry rest claimed => guarded do
    let stale ← fetch (claimEach cfg.worker.workerId cfg.worker.claimMinIdleMs (entry :: rest)
      claimed)
    afterClaim cfg stale
  | .reading count => guarded do
    let new ← fetch (read true cfg.worker.workerId count)
    dispatchAll new
  | .backoff => do
    ask .sleep
    ask .again
  | .ended => pure ()
  | .dead e => throw e

/-- How many messages the fetch under way may still return. -/
def need : PoolPos → ℕ
  | .depth _ batch => batch
  | .group batch => batch
  | .pending batch => batch
  | .claiming _ rest claimed => claimed.length + rest.length + 1
  | .reading count => count
  | _ => 0

/-- The iteration is under way. -/
def active : PoolPos → Bool
  | .ended => false
  | .dead _ => false
  | _ => true

end PoolPos

/-! ### Turns -/

section

variable {cfg} {d : Pool}

/-- The pool after a fetch returned the messages and they were started. -/
def Pool.start (d : Pool) (messages : List QueueMessage) : Pool :=
  { d with
    permits := d.permits - messages.length
    inflight := d.inflight ++ messages
    fetched := d.fetched ++ messages
    started := d.started ++ messages }

/-- Messages for which there are permits are all started in one turn. -/
theorem advance_dispatchAll {messages : List QueueMessage} (h : messages.length ≤ d.permits) :
    (pool cfg).advance d (dispatchAll messages) =
      ({ d with
          permits := d.permits - messages.length
          inflight := d.inflight ++ messages
          started := d.started ++ messages }, pure ()) := by
  induction messages generalizing d with
  | nil =>
    simp only [dispatchAll, List.length_nil, Nat.sub_zero, List.append_nil]
    rfl
  | cons message rest ih =>
    rw [List.length_cons] at h
    have hpermit : d.permits ≠ 0 := by omega
    have hissue : (pool cfg).advance d (dispatchAll (message :: rest)) =
        (pool cfg).advance { d with
          permits := d.permits - 1
          inflight := d.inflight ++ [message]
          started := d.started ++ [message] } (dispatchAll rest) := by
      simp only [dispatchAll, perform, bind, Program.bind, Loop.advance, pool, if_neg hpermit]
      rfl
    rw [hissue, ih (by simp; omega)]
    simp only [List.length_cons, List.append_assoc, List.singleton_append]
    rw [Nat.sub_sub, Nat.add_comm 1]

/-- The messages that a fetch returned, and for which there are permits. -/
theorem advance_returned {messages : List QueueMessage} (h : messages.length ≤ d.permits) :
    (pool cfg).advance d (fetch (pure messages) >>= dispatchAll) = (d.start messages, pure ()) := by
  have hghost : (pool cfg).advance d (fetch (pure messages) >>= dispatchAll) =
      (pool cfg).advance { d with fetched := d.fetched ++ messages } (dispatchAll messages) := rfl
  rw [hghost]
  exact advance_dispatchAll (d := { d with fetched := d.fetched ++ messages }) h

/-! A turn inside the `try` statement. -/

theorem advance_guarded_pure {p : PoolProg Unit} {d' : Pool} {u : Unit}
    (h : (pool cfg).advance d p = (d', .pure u)) :
    (pool cfg).advance d (guarded p) =
      ({ d' with running := false }, PoolPos.prog cfg .ended) := by
  rw [guarded, Loop.advance_bind, Loop.advance_tryCatch, h]
  rfl

theorem advance_guarded_throw {p : PoolProg Unit} {d' : Pool} {e : Exc}
    (h : (pool cfg).advance d p = (d', .throw e)) :
    (pool cfg).advance d (guarded p) =
      (d', PoolPos.prog cfg (if isRedisError e then .backoff else .dead e)) := by
  rw [guarded, Loop.advance_bind, Loop.advance_tryCatch, h]
  by_cases he : isRedisError e
  · simp only [onError, if_pos he]
    rfl
  · simp only [onError, if_neg he]
    rfl

theorem advance_guarded_call {p : PoolProg Unit} {c : PoolCmd}
    {k : Except Exc (PoolReply c) → PoolProg Unit}
    (h : (pool cfg).advance d p = (d, .call c k)) :
    (pool cfg).advance d (guarded p) = (d, guarded (.call c k)) := by
  rw [guarded, Loop.advance_bind, Loop.advance_tryCatch, h]
  rfl

/-! ### The invariant -/

/-- The data and the positions of a reachable state: the permits and the jobs in flight add up, what
a fetch returned was started, and at most one iteration is under way, with permits for all that its
fetch may still return. -/
structure PoolInv (cfg : PoolConfig) (d : Pool) (xs : List PoolPos) : Prop where
  balanced : d.permits + d.inflight.length = cfg.workerConcurrency
  started : d.fetched = d.started
  need : ∀ x ∈ xs, x.need ≤ d.permits
  alone : xs.countP PoolPos.active ≤ if d.running then 1 else 0

theorem PoolPos.need_of_not_active {x : PoolPos} (hx : x.active = false) : x.need = 0 := by
  cases x <;> simp_all [active, need]

/-- The iteration that is under way moves on. -/
theorem PoolInv.move {l r : List PoolPos} {x x' : PoolPos} {d' : Pool}
    (h : PoolInv cfg d (l ++ x :: r)) (hx : x.active = true)
    (hbalanced : d'.permits + d'.inflight.length = cfg.workerConcurrency)
    (hstarted : d'.fetched = d'.started) (hneed : x'.need ≤ d'.permits)
    (hrunning : x'.active = true → d'.running = d.running) :
    PoolInv cfg d' (l ++ x' :: r) := by
  have halone := h.alone
  have hrun : d.running = true := by
    by_contra hrun
    rw [if_neg hrun, List.countP_append, List.countP_cons_of_pos hx] at halone
    omega
  rw [if_pos hrun, List.countP_append, List.countP_cons_of_pos hx] at halone
  have hothers : ∀ y ∈ l ++ r, y.active = false := by
    have hcount : (l ++ r).countP PoolPos.active = 0 := by
      rw [List.countP_append]
      omega
    simpa using List.countP_eq_zero.mp hcount
  refine ⟨hbalanced, hstarted, fun y hy => ?_, ?_⟩
  · rcases List.mem_append.mp hy with hy | hy
    · rw [PoolPos.need_of_not_active (hothers y (List.mem_append_left _ hy))]
      exact Nat.zero_le _
    · rcases List.mem_cons.mp hy with rfl | hy
      · exact hneed
      · rw [PoolPos.need_of_not_active (hothers y (List.mem_append_right _ hy))]
        exact Nat.zero_le _
  · rw [List.countP_append, List.countP_cons]
    cases hx' : x'.active with
    | false =>
      simp only [Bool.false_eq_true, if_false]
      omega
    | true =>
      rw [hrunning hx', hrun]
      simp only [if_true]
      omega

/-- `Moves d p x`: run from `d`, the rest `p` of the iteration at `x` stops at a position from which
the invariant can go on. -/
def Moves (cfg : PoolConfig) (d : Pool) (p : PoolProg Unit) : Prop :=
  ∃ d' x', (pool cfg).advance d p = (d', PoolPos.prog cfg x') ∧
    d'.permits + d'.inflight.length = cfg.workerConcurrency ∧ d'.fetched = d'.started ∧
    x'.need ≤ d'.permits ∧ (x'.active = true → d'.running = d.running)

/-- The messages that a fetch returned are started, and what follows moves on. -/
theorem moves_returned {messages : List QueueMessage} (h : messages.length ≤ d.permits)
    {p : PoolProg Unit} (hp : Moves cfg (d.start messages) (guarded p)) :
    Moves cfg d (guarded ((fetch (pure messages) >>= dispatchAll) >>= fun _ => p)) := by
  have hadvance : (pool cfg).advance d
        (guarded ((fetch (pure messages) >>= dispatchAll) >>= fun _ => p)) =
      (pool cfg).advance (d.start messages) (guarded p) := by
    rw [guarded, Loop.advance_bind, Loop.advance_tryCatch, Loop.advance_bind, advance_returned h,
      guarded, Loop.advance_bind, Loop.advance_tryCatch]
    rfl
  unfold Moves
  rw [hadvance]
  exact hp

section

variable (hbalanced : d.permits + d.inflight.length = cfg.workerConcurrency)
  (hstarted : d.fetched = d.started)
include hbalanced hstarted

/-- The loop stays at a position with the same data. -/
theorem moves_of_advance {p : PoolProg Unit} {x : PoolPos}
    (h : (pool cfg).advance d p = (d, x.prog cfg)) (hneed : x.need ≤ d.permits) : Moves cfg d p :=
  ⟨d, x, h, hbalanced, hstarted, hneed, fun _ => rfl⟩

/-- An exception backs off or ends the loop. -/
theorem moves_throw {p : PoolProg Unit} {e : Exc} (h : (pool cfg).advance d p = (d, .throw e)) :
    Moves cfg d (guarded p) := by
  refine moves_of_advance hbalanced hstarted (advance_guarded_throw h) ?_
  split <;> exact Nat.zero_le _

/-- The second half of an iteration. -/
theorem moves_readNew : Moves cfg d (guarded (readNew cfg)) := by
  by_cases hcapacity : d.capacity cfg ≤ 0
  · have hadvance : (pool cfg).advance d (readNew cfg) = (d, pure ()) := by
      change (pool cfg).advance d (if d.capacity cfg ≤ 0 then pure () else _) = _
      rw [if_pos hcapacity]
      rfl
    exact ⟨_, .ended, advance_guarded_pure hadvance, hbalanced, hstarted, Nat.zero_le _,
      fun h => by cases h⟩
  · refine moves_of_advance (x := .reading (min cfg.readCount (d.capacity cfg).toNat)) hbalanced
      hstarted (advance_guarded_call ?_) ?_
    · change (pool cfg).advance d (if d.capacity cfg ≤ 0 then pure () else _) = _
      rw [if_neg hcapacity]
      rfl
    · simp only [PoolPos.need, Pool.capacity]
      omega

/-- The iteration ends with the messages that were read. -/
theorem moves_started {new : List QueueMessage} (h : new.length ≤ d.permits) :
    Moves cfg d (guarded (fetch (pure new) >>= dispatchAll)) := by
  refine ⟨_, .ended, advance_guarded_pure (advance_returned h), ?_,
    congrArg (· ++ new) hstarted, Nat.zero_le _, fun h => by cases h⟩
  simp only [Pool.start, List.length_append]
  omega

theorem moves_afterClaim {stale : List QueueMessage} (h : stale.length ≤ d.permits) :
    Moves cfg d (guarded (fetch (pure stale) >>= afterClaim cfg)) := by
  refine moves_returned h (moves_readNew ?_ (congrArg (· ++ stale) hstarted))
  simp only [Pool.start, List.length_append]
  omega

theorem moves_claimEach {rest : List (ℕ × ℕ)} {claimed : List QueueMessage}
    (h : claimed.length + rest.length ≤ d.permits) :
    Moves cfg d (guarded (fetch (claimEach cfg.worker.workerId cfg.worker.claimMinIdleMs rest
      claimed) >>= afterClaim cfg)) := by
  cases rest with
  | nil => exact moves_afterClaim hbalanced hstarted h
  | cons entry rest =>
    exact moves_of_advance (x := .claiming entry rest claimed) hbalanced hstarted
      (advance_guarded_call rfl) h

theorem moves_claimStale {batch : ℕ} (h : batch ≤ d.permits) (ready : Bool) :
    Moves cfg d (guarded (fetch (claimStale ready cfg.worker.workerId cfg.worker.claimMinIdleMs
      batch) >>= afterClaim cfg)) := by
  cases ready with
  | true =>
    exact moves_of_advance (x := .pending batch) hbalanced hstarted
      (advance_guarded_call rfl) h
  | false =>
    exact moves_of_advance (x := .group batch) hbalanced hstarted
      (advance_guarded_call rfl) h

theorem moves_iteration (ready : Bool) : Moves cfg d (iteration cfg ready) := by
  by_cases hcapacity : d.capacity cfg ≤ 0
  · refine moves_of_advance (x := .full) hbalanced hstarted (advance_guarded_call ?_)
      (Nat.zero_le _)
    change (pool cfg).advance d (if d.capacity cfg ≤ 0 then ask .sleep else _) = _
    rw [if_pos hcapacity]
    rfl
  · refine moves_of_advance (x := .depth ready (min cfg.readCount (d.capacity cfg).toNat)) hbalanced
      hstarted (advance_guarded_call ?_) ?_
    · change (pool cfg).advance d (if d.capacity cfg ≤ 0 then ask .sleep else _) = _
      rw [if_neg hcapacity]
      rfl
    · simp only [PoolPos.need, Pool.capacity]
      omega

/-- An iteration that is at its end. -/
theorem moves_again : Moves cfg d (ask .again) :=
  ⟨{ d with running := false }, .ended, rfl, hbalanced, hstarted, Nat.zero_le _,
    fun h => by cases h⟩

/-- An answer takes the iteration from a position to another one. -/
theorem moves_of_answer {x : PoolPos} (hneed : x.need ≤ d.permits) {c : PoolCmd}
    {k : Except Exc (PoolReply c) → PoolProg Unit} (hprog : x.prog cfg = .call c k)
    {r : Except Exc (PoolReply c)} {d' : Pool} (hr : (pool cfg).complete d c r = some d') :
    d' = d ∧ Moves cfg d (k r) := by
  cases x with
  | full =>
    cases hprog
    match r, hr with
    | .ok _, hr => exact ⟨(Option.some.inj hr).symm, moves_again hbalanced hstarted⟩
  | depth ready batch =>
    cases hprog
    have hd : d' = d := (Option.some.inj hr).symm
    refine ⟨hd, ?_⟩
    match r with
    | .ok depth => exact moves_claimStale hbalanced hstarted hneed ready
    | .error e =>
      by_cases he : e = .redisResponse
      · subst he
        exact moves_claimStale hbalanced hstarted hneed ready
      · refine moves_throw (e := e) hbalanced hstarted
          (p := onRedis (if e = .redisResponse then pure 0 else throw e) >>= fun _ => _) ?_
        rw [if_neg he]
        rfl
  | group batch =>
    cases hprog
    have hd : d' = d := (Option.some.inj hr).symm
    refine ⟨hd, ?_⟩
    match r with
    | .ok _ => exact moves_claimStale hbalanced hstarted hneed true
    | .error e => exact moves_throw hbalanced hstarted (p := throw e) rfl
  | pending batch =>
    cases hprog
    match r, hr with
    | .error e, hr =>
      exact ⟨(Option.some.inj hr).symm, moves_throw hbalanced hstarted (p := throw e) rfl⟩
    | .ok entries, hr =>
      obtain ⟨hcount, hd⟩ := Option.ite_none_right_eq_some.mp hr
      have hlength : entries.length ≤ batch := of_decide_eq_true hcount
      refine ⟨(Option.some.inj hd).symm, moves_claimEach hbalanced hstarted ?_⟩
      rw [List.length_nil, Nat.zero_add]
      exact hlength.trans hneed
  | claiming entry rest claimed =>
    cases hprog
    match r, hr with
    | .error e, hr =>
      exact ⟨(Option.some.inj hr).symm, moves_throw hbalanced hstarted (p := throw e) rfl⟩
    | .ok entries, hr =>
      obtain ⟨hcount, hd⟩ := Option.ite_none_right_eq_some.mp hr
      have hlength : entries.length ≤ 1 := of_decide_eq_true hcount
      have hbound (ds : List Delivery) (hds : ds.length ≤ 1) :
          (claimed ++ ds.map fun m => Delivery.toMessage m entry.2).length + rest.length ≤
            d.permits := by
        simp only [PoolPos.need] at hneed
        rw [List.length_append, List.length_map]
        omega
      exact ⟨(Option.some.inj hd).symm,
        moves_claimEach hbalanced hstarted (hbound entries hlength)⟩
  | reading count =>
    cases hprog
    match r, hr with
    | .error e, hr =>
      exact ⟨(Option.some.inj hr).symm, moves_throw hbalanced hstarted (p := throw e) rfl⟩
    | .ok entries, hr =>
      obtain ⟨hcount, hd⟩ := Option.ite_none_right_eq_some.mp hr
      have hlength : entries.length ≤ count := of_decide_eq_true hcount
      have hbound (ds : List Delivery) (hds : ds.length ≤ count) :
          (ds.map fun m => Delivery.toMessage m 1).length ≤ d.permits := by
        rw [List.length_map]
        exact hds.trans hneed
      exact ⟨(Option.some.inj hd).symm,
        moves_started hbalanced hstarted (hbound entries hlength)⟩
  | backoff =>
    cases hprog
    match r, hr with
    | .ok _, hr => exact ⟨(Option.some.inj hr).symm, moves_again hbalanced hstarted⟩
  | ended => cases hprog
  | dead e => cases hprog

end

/-- Every task of the event loop is at a position, and the invariant of the pool holds. -/
theorem pool_positions {s : LoopState Pool PoolCmd PoolReply Exc} (h : (pool cfg).Reachable s) :
    ∃ xs, s.tasks = xs.map (PoolPos.prog cfg) ∧ PoolInv cfg s.data xs := by
  refine h.positions ⟨rfl, rfl, fun x hx => absurd hx List.not_mem_nil, Nat.le_refl _⟩ ?_ ?_
  · intro d xs v d' p _ hinv hv
    cases v with
    | iterate ready =>
      obtain ⟨hidle, hp⟩ := Option.ite_none_left_eq_some.mp hv
      obtain ⟨rfl, rfl⟩ := Prod.mk.inj (Option.some.inj hp)
      obtain ⟨d', x, hadvance, hbalanced, hstarted, hneed, hrunning⟩ :=
        moves_iteration (d := { d with running := true }) hinv.balanced hinv.started ready
      -- The new task counts as the one iteration under way until it stops for the first time.
      have hnew : PoolInv cfg { d with running := true } (xs ++ [.full]) := by
        refine ⟨hinv.balanced, hinv.started, fun y hy => ?_, ?_⟩
        · rcases List.mem_append.mp hy with hy | hy
          · exact hinv.need y hy
          · rw [List.mem_singleton.mp hy]
            exact Nat.zero_le _
        · have halone := hinv.alone
          rw [if_neg hidle] at halone
          rw [List.countP_append, if_pos rfl]
          exact Nat.add_le_add_right halone 1
      exact ⟨d', x, hadvance, hnew.move rfl hbalanced hstarted hneed hrunning⟩
    | jobEnds i =>
      obtain ⟨hi, hp⟩ := Option.ite_none_right_eq_some.mp hv
      obtain ⟨rfl, rfl⟩ := Prod.mk.inj (Option.some.inj hp)
      refine ⟨_, .ended, rfl, ?_, hinv.started, ?_, ?_⟩
      · have := hinv.balanced
        simp only [List.length_eraseIdx_of_lt hi]
        omega
      · intro x hx
        rcases List.mem_append.mp hx with hx | hx
        · exact (hinv.need x hx).trans (Nat.le_succ _)
        · rw [List.mem_singleton.mp hx]
          exact Nat.zero_le _
      · rw [List.countP_append]
        exact hinv.alone
  · intro d l x r answer c k d' _ hinv hprog hr
    obtain ⟨rfl, d'', x', hadvance, hbalanced, hstarted, hneed, hrunning⟩ :=
      moves_of_answer hinv.balanced hinv.started (hinv.need x (by simp)) hprog hr
    have hactive : x.active = true := by
      cases x <;> first | rfl | cases hprog
    exact ⟨d'', x', hadvance, hinv.move hactive hbalanced hstarted hneed hrunning⟩

/-- No position waits for a permit. -/
theorem PoolPos.prog_ne_acquire (x : PoolPos)
    (k : Except Exc (PoolReply .acquire) → PoolProg Unit) : x.prog cfg ≠ .call .acquire k := by
  intro h
  cases x <;> cases h

/-- **The worker never fetches more than it can start.** Whatever Redis answers within the requested
counts, and however jobs end meanwhile: the jobs in flight are at most the slots of the pool, no
task waits for a permit, and every message that `claim_stale` or `read` returned has been
started. -/
theorem pool_never_overcommits {s : LoopState Pool PoolCmd PoolReply Exc}
    (h : (pool cfg).Reachable s) :
    s.data.inflight.length ≤ cfg.workerConcurrency ∧
      (∀ p ∈ s.tasks, ∀ k, p ≠ .call .acquire k) ∧ s.data.fetched = s.data.started := by
  obtain ⟨xs, htasks, hinv⟩ := pool_positions h
  refine ⟨?_, fun p hp k => ?_, hinv.started⟩
  · have := hinv.balanced
    omega
  · rw [htasks] at hp
    obtain ⟨x, _, rfl⟩ := List.mem_map.mp hp
    exact x.prog_ne_acquire k

end

/-- A worker with two slots. -/
def samplePool : PoolConfig where
  worker := ⟨str "w1", 60000, 3, false⟩
  workerConcurrency := 2
  readCount := 5

/-- Redis shows one stale entry and has one new message at a time. -/
def sampleAnswer : (c : PoolCmd) → Except Exc (PoolReply c)
  | .redis .xlen => .ok (2 : ℕ)
  | .redis (.xpendingRange _ _) => .ok [(7, 1)]
  | .redis (.xclaim _ _ msgId) => .ok [⟨msgId, .none, 2⟩]
  | .redis (.xreadgroup _ _) => .ok [⟨8, .none, 1⟩]
  | .redis _ => .error .other
  | .capacity => .ok 0
  | .sleep => .ok ()
  | .acquire => .ok ()
  | .createTask _ => .ok ()
  | .returned _ => .ok ()
  | .again => .ok ()

/-- One iteration fills the pool, the next one sleeps, and a job ends meanwhile. -/
def samplePoolTurns : List (Turn PoolCmd PoolReply Exc PoolEvent) :=
  [.event (.iterate true), .resume 0 sampleAnswer, .resume 0 sampleAnswer, .resume 0 sampleAnswer,
    .resume 0 sampleAnswer, .event (.iterate true), .event (.jobEnds 0), .resume 1 sampleAnswer]

/-- Where the sample ends. -/
def samplePoolState : LoopState Pool PoolCmd PoolReply Exc :=
  (pool samplePool).run (pool samplePool).start samplePoolTurns

theorem pool_never_overcommits_sample :
    samplePoolState.data.started.map QueueMessage.msgId = [7, 8] ∧
      samplePoolState.data.fetched = samplePoolState.data.started := by
  refine ⟨by decide +kernel, ?_⟩
  exact (pool_never_overcommits (Loop.reachable_run samplePoolTurns (by decide +kernel))).2.2

end CodeInterpreter.Worker
