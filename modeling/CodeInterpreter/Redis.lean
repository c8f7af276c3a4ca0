import CodeInterpreter.Types
import CodeInterpreter.Async.System
import Mathlib.Logic.Function.Basic

/-!
# Redis and the other services, as the two programs see them

The commands that the API server and the worker issue, and the world they act on: the job stream
with its consumer group, the dead-letter stream, the keys of a job, the concurrency sets, and the
variables of the WebSocket connections. Redis executes each command, and each `MULTI` block and
Lua script, atomically. An expired key is absent.

Replies that Redis does not determine come from an oracle: the outcome of a sandboxed execution
and the verdict of the rate limiter.

Two ghosts follow the deliveries: `World.delivered` logs the id of every entry that Redis delivers,
and `Delivery.nth` says how often the entry has been delivered, this time included. No program and
no reply depends on them.

## Main definitions

* `Key`: the key conventions, with `Key.render_injective`.
* `Stored`, `fetch`: values with an expiry time.
* `Cmd`, `Reply`, `World`, `World.exec`.

## Main results

* `Key.render_injective`: the keys of the model are different keys of Redis.
-/

namespace CodeInterpreter

/-! ### Keys -/

/-- The Redis keys of the two streams, of jobs and of users. -/
inductive Key
  | jobStream
  | deadLetterStream
  | jobRecord (jobId : Str)
  | result (jobId : Str)
  | streamChannel (jobId : Str)
  | cancel (jobId : Str)
  | concurrency (userId : Str)
  deriving DecidableEq

/-- The string of a key. -/
def Key.render : Key → Str
  | .jobStream => str "sandbox:jobs"
  | .deadLetterStream => str "sandbox:jobs:dead"
  | .jobRecord jobId => str "sandbox:job:" ++ jobId
  | .result jobId => str "sandbox:result:" ++ jobId
  | .streamChannel jobId => str "sandbox:stream:" ++ jobId
  | .cancel jobId => str "sandbox:cancel:" ++ jobId
  | .concurrency userId => str "sandbox:concurrency:" ++ userId

/-- Different keys are rendered differently: it is sound to keep the streams and the keys of each
kind apart. -/
theorem Key.render_injective : Function.Injective Key.render := by
  intro a b h
  cases a <;> cases b <;> simp_all [Key.render, str]

/-! ### Values with an expiry -/

/-- A value with the time at which it expires, if it does. -/
structure Stored (α : Type) where
  value : α
  expiry : Option ℕ

/-- The key has not expired. -/
def Stored.Live {α : Type} (x : Stored α) (now : ℕ) : Prop := ∀ t ∈ x.expiry, now < t

instance {α : Type} (x : Stored α) (now : ℕ) : Decidable (x.Live now) :=
  inferInstanceAs (Decidable (∀ t ∈ x.expiry, now < t))

/-- `GET` at the time `now`. -/
def fetch {α : Type} (now : ℕ) : Option (Stored α) → Option α
  | some x => if x.Live now then some x.value else none
  | none => none

/-- `SET … EX seconds`. -/
def setEx {α : Type} (now : ℕ) (v : α) (seconds : ℕ) : Stored α := ⟨v, some (now + 1000 * seconds)⟩

/-- `SET … KEEPTTL`: a missing key is created without an expiry. -/
def setKeepTtl {α : Type} (now : ℕ) (old : Option (Stored α)) (v : α) : Stored α :=
  ⟨v, match old with
    | some x => if x.Live now then x.expiry else none
    | none => none⟩

/-- The concurrency set of a user: the slots with the time they were granted. -/
structure SlotSet where
  members : List (Str × ℕ)
  expiry : Option ℕ

namespace SlotSet

/-- The members at the time `now`: none once the whole set has expired. -/
def current (z : SlotSet) (now : ℕ) : List (Str × ℕ) :=
  if ∀ t ∈ z.expiry, now < t then z.members else []

/-- The script `ACQUIRE_LUA`. -/
def acquire (z : SlotSet) (now : ℕ) (member : Str) (ttlMs limit : ℕ) : SlotSet × Bool :=
  let kept := (z.current now).filter fun m => now < m.2 + ttlMs
  if kept.length < limit then
    (⟨(member, now) :: kept.filter (fun m => m.1 ≠ member), some (now + ttlMs)⟩, true)
  else (⟨kept, z.expiry⟩, false)

/-- `ZREM`. -/
def zrem (z : SlotSet) (now : ℕ) (member : Str) : SlotSet :=
  ⟨(z.current now).filter fun m => m.1 ≠ member, z.expiry⟩

end SlotSet

/-! ### Commands -/

/-- An entry of the job stream with its decoded payload. -/
structure StreamEntry where
  id : ℕ
  payload : Value

/-- An entry of the pending list of the consumer group. -/
structure Pending where
  id : ℕ
  consumer : Str
  timesDelivered : ℕ
  since : ℕ

/-- A delivered entry; `nth` is a ghost. -/
structure Delivery where
  id : ℕ
  payload : Value
  nth : ℕ

/-- A claimed stream entry with its decoded payload; `nth` is a ghost. -/
structure QueueMessage where
  msgId : ℕ
  payload : Value
  deliveryCount : ℕ
  nth : ℕ

/-- An entry of the dead-letter stream. -/
structure DeadLetter where
  payload : Value
  reason : Str
  deliveryCount : ℕ

/-- The messages that the worker publishes on the channel of a job. -/
inductive StreamMessage
  | stdout (data : Str)
  | stderr (data : Str)
  | status (status : JobStatus)
  | done (exitCode : Option ℤ) (status : JobStatus) (wallTimeMs : ℕ) (timedOut oomKilled : Bool)

/-- The frames that the API sends on a WebSocket. `streamError` is an error frame titled
`Stream error` whose detail is the message of an exception. -/
inductive ServerFrame
  | accepted (jobId : Str)
  | status (status : JobStatus)
  | stdout (data : Str)
  | stderr (data : Str)
  | exit (exitCode : Option ℤ) (status : JobStatus) (wallTimeMs : ℕ) (timedOut oomKilled : Bool)
  | error (title detail : Str)
  | streamError (e : Exc)

/-- The HTTP answers of the routes. -/
inductive Response
  | problem (status : ℕ) (title detail : Str) (code : Option Str)
  | accepted (jobId : Str)
  | result (result : ExecutionResult)
  | jobRecord (record : JobRecord)
  | cancelled (jobId : Str)

/-- One poll of the cancellation flag by the watcher. -/
inductive Poll
  | flag (cancelled : Bool)
  | error (e : Exc)
  deriving DecidableEq

/-- What happened while the sandbox ran: the polls of the cancellation watcher up to the end of
the execution, and what `executor.execute` returned or raised. -/
structure Execution where
  polls : List Poll
  outcome : Except Exc ExecutionResult
  deriving DecidableEq

/-- The commands of both services. -/
inductive Cmd
  | xgroupCreate
  | enqueue (payload : JobPayload) (record : JobRecord)
  | xlen
  | xreadgroup (consumer : Str) (count : ℕ)
  | xpendingRange (count minIdle : ℕ)
  | xclaim (consumer : Str) (minIdle id : ℕ)
  | xack (id : ℕ)
  | xdel (id : ℕ)
  | xaddDead (letter : DeadLetter)
  | getRecord (jobId : Str)
  | setRecord (jobId : Str) (record : JobRecord)
  | setResult (jobId : Str) (result : ExecutionResult)
  | existsCancel (jobId : Str)
  | cancelMulti (jobId : Str) (record : JobRecord)
  | acquire (userId jobId : Str) (limit ttlMs : ℕ)
  | zrem (userId jobId : Str)
  | publish (jobId : Str) (message : StreamMessage)
  | archive (jobId : Str) (result : ExecutionResult)
  | execute (request : ExecutionRequest) (jobId : Str)
  | createTask (message : QueueMessage)
  | inFlight (d : ℤ)
  | respond (response : Response)
  | rateLimit (principal : Principal) (ip : Str)
  | wsAssignSlot (conn : ℕ) (jobId : Str)
  | wsConnect (conn : ℕ)
  | wsSubscribe (conn : ℕ) (jobId : Str)
  | wsStartTimer (conn : ℕ)
  | wsSettle (conn : ℕ)
  | wsCleanup (conn : ℕ)
  | wsClearTimer (conn : ℕ)
  | wsQuit (conn : ℕ)
  | wsClosed (conn : ℕ)
  | wsSend (conn : ℕ) (frame : ServerFrame)
  | wsClose (conn : ℕ)

/-- The type of the reply to a command. -/
def Reply : Cmd → Type
  | .xgroupCreate => Bool
  | .xlen => ℕ
  | .xreadgroup _ _ => List Delivery
  | .xpendingRange _ _ => List (ℕ × ℕ)
  | .xclaim _ _ _ => List Delivery
  | .getRecord _ => Option JobRecord
  | .existsCancel _ => Bool
  | .acquire _ _ _ _ => Bool
  | .execute _ _ => Execution
  | .rateLimit _ _ => Option ℕ
  | .wsStartTimer _ => Bool
  | .wsSettle _ => Bool
  | .wsCleanup _ => Option (Option Str)
  | .wsClearTimer _ => Bool
  | .wsSend _ _ => Bool
  | _ => Unit

/-- The commands that cannot raise: local ones, and the two whose failures are part of their
reply. -/
def mayFail : Cmd → Bool
  | .execute _ _ | .createTask _ | .inFlight _ | .respond _ | .rateLimit _ _ => false
  | .wsAssignSlot _ _ | .wsConnect _ | .wsStartTimer _ | .wsSettle _ | .wsCleanup _ => false
  | .wsClearTimer _ | .wsClosed _ | .wsSend _ _ | .wsClose _ => false
  | _ => true

/-! ### The world -/

/-- The variables of one WebSocket connection. -/
structure Conn where
  slotJobId : Option Str := none
  subscriber : Bool := false
  lifetimeTimer : Bool := false
  settled : Bool := false
  cleanedUp : Bool := false

/-- Everything the commands act on; `delivered` is a ghost. -/
structure World where
  groupCreated : Bool
  nextId : ℕ
  stream : List StreamEntry
  lastDelivered : ℕ
  pending : List Pending
  delivered : List ℕ
  dead : List DeadLetter
  record : Str → Option (Stored JobRecord)
  result : Str → Option (Stored ExecutionResult)
  cancel : Str → Option (Stored Unit)
  slots : Str → SlotSet
  jobsInFlight : ℤ
  activeWebsockets : ℤ
  conns : ℕ → Conn

/-- The replies that the world does not determine. -/
structure Oracle where
  execution : Execution := ⟨[], .error .other⟩
  blockedMs : Option ℕ := none
  roomy : Bool := true

namespace World

/-- An empty Redis. -/
def init : World where
  groupCreated := false
  nextId := 1
  stream := []
  lastDelivered := 0
  pending := []
  delivered := []
  dead := []
  record _ := none
  result _ := none
  cancel _ := none
  slots _ := ⟨[], none⟩
  jobsInFlight := 0
  activeWebsockets := 0
  conns _ := {}

/-- The entries that the group has not delivered yet. -/
def undelivered (w : World) : List StreamEntry := w.stream.filter fun e => w.lastDelivered < e.id

/-- The entries that `XREADGROUP … COUNT count` delivers. -/
def readBatch (w : World) (count : ℕ) : List StreamEntry := w.undelivered.take count

/-- `XREADGROUP`: the delivered entries enter the pending list with a delivery count of one. -/
def read (w : World) (now : ℕ) (consumer : Str) (count : ℕ) : World :=
  { w with
    lastDelivered := (w.readBatch count).foldl (fun m e => max m e.id) w.lastDelivered
    pending := w.pending ++ (w.readBatch count).map fun e => ⟨e.id, consumer, 1, now⟩
    delivered := (w.readBatch count).map StreamEntry.id ++ w.delivered }

/-- The pending entry of the given id, if it has been idle long enough to be claimed. -/
def claimable (w : World) (now minIdle id : ℕ) : Option Pending :=
  w.pending.find? fun p => p.id = id ∧ p.since + minIdle ≤ now

/-- `XCLAIM` of one id: an entry that is no longer in the stream leaves the pending list; one that
has been idle long enough changes its owner and its delivery count goes up. -/
def claim (w : World) (now : ℕ) (consumer : Str) (minIdle id : ℕ) : World × List Delivery :=
  match w.stream.find? fun e => e.id = id, w.claimable now minIdle id with
  | none, _ => ({ w with pending := w.pending.filter fun p => p.id ≠ id }, [])
  | some _, none => (w, [])
  | some e, some _ =>
    ({ w with
        pending := w.pending.map fun q =>
          if q.id = id then ⟨id, consumer, q.timesDelivered + 1, now⟩ else q
        delivered := id :: w.delivered },
      [⟨id, e.payload, (id :: w.delivered).count id⟩])

/-- `MULTI; XADD sandbox:jobs * payload …; SET sandbox:job:<id> … EX 7200; EXEC`. -/
def enqueue (w : World) (now : ℕ) (payload : JobPayload) (record : JobRecord) : World :=
  { w with
    nextId := w.nextId + 1
    stream := w.stream ++ [⟨w.nextId, payload.toValue⟩]
    record := Function.update w.record payload.jobId (some (setEx now record recordTtlSeconds)) }

/-- `SET sandbox:job:<id> … KEEPTTL`. -/
def setRecord (w : World) (now : ℕ) (jobId : Str) (record : JobRecord) : World :=
  { w with record :=
      Function.update w.record jobId (some (setKeepTtl now (w.record jobId) record)) }

/-- `SET sandbox:cancel:<id> 1 EX 120`. -/
def setCancel (w : World) (now : ℕ) (jobId : Str) : World :=
  { w with cancel := Function.update w.cancel jobId (some (setEx now () cancelTtlSeconds)) }

/-- Change the variables of a connection. -/
def onConn (w : World) (conn : ℕ) (f : Conn → Conn) : World :=
  { w with conns := Function.update w.conns conn (f (w.conns conn)) }

/-- The effect and the reply of a command at the time `now`. -/
def exec (now : ℕ) (w : World) : (c : Cmd) → Oracle → World × Reply c
  | .xgroupCreate, _ => ({ w with groupCreated := true }, !w.groupCreated)
  | .enqueue payload record, _ => (w.enqueue now payload record, ())
  | .xlen, _ => (w, w.stream.length)
  | .xreadgroup consumer count, _ =>
    (w.read now consumer count, (w.readBatch count).map fun e =>
      ⟨e.id, e.payload, (w.read now consumer count).delivered.count e.id⟩)
  | .xpendingRange count minIdle, _ =>
    (w, ((w.pending.filter fun p => p.since + minIdle ≤ now).take count).map
      fun p => (p.id, p.timesDelivered))
  | .xclaim consumer minIdle id, _ => w.claim now consumer minIdle id
  | .xack id, _ => ({ w with pending := w.pending.filter fun p => p.id ≠ id }, ())
  | .xdel id, _ => ({ w with stream := w.stream.filter fun e => e.id ≠ id }, ())
  | .xaddDead letter, _ => ({ w with dead := (letter :: w.dead).take deadLetterMaxlen }, ())
  | .getRecord jobId, _ => (w, fetch now (w.record jobId))
  | .setRecord jobId record, _ => (w.setRecord now jobId record, ())
  | .setResult jobId result, _ =>
    ({ w with result :=
        Function.update w.result jobId (some (setEx now result resultTtlSeconds)) }, ())
  | .existsCancel jobId, _ => (w, (fetch now (w.cancel jobId)).isSome)
  | .cancelMulti jobId record, _ => ((w.setCancel now jobId).setRecord now jobId record, ())
  | .acquire userId jobId limit ttlMs, _ =>
    let (z, granted) := (w.slots userId).acquire now jobId ttlMs limit
    ({ w with slots := Function.update w.slots userId z }, granted)
  | .zrem userId jobId, _ =>
    ({ w with slots := Function.update w.slots userId ((w.slots userId).zrem now jobId) }, ())
  | .publish _ _, _ => (w, ())
  | .archive _ _, _ => (w, ())
  | .execute _ _, o => (w, o.execution)
  | .createTask _, _ => (w, ())
  | .inFlight d, _ => ({ w with jobsInFlight := w.jobsInFlight + d }, ())
  | .respond _, _ => (w, ())
  | .rateLimit _ _, o => (w, o.blockedMs)
  | .wsAssignSlot conn jobId, _ => (w.onConn conn fun x => { x with slotJobId := some jobId }, ())
  | .wsConnect conn, _ => (w.onConn conn fun x => { x with subscriber := true }, ())
  | .wsSubscribe _ _, _ => (w, ())
  | .wsStartTimer conn, _ =>
    (w.onConn conn fun x => { x with lifetimeTimer := true }, (w.conns conn).subscriber)
  | .wsSettle conn, _ => (w.onConn conn fun x => { x with settled := true }, (w.conns conn).settled)
  | .wsCleanup conn, _ =>
    (w.onConn conn fun x => { x with cleanedUp := true },
      if (w.conns conn).cleanedUp then none else some (w.conns conn).slotJobId)
  | .wsClearTimer conn, _ =>
    (w.onConn conn fun x => { x with slotJobId := none, lifetimeTimer := false },
      (w.conns conn).subscriber)
  | .wsQuit _, _ => (w, ())
  | .wsClosed conn, _ =>
    ({ w.onConn conn fun x => { x with subscriber := false } with
        activeWebsockets := w.activeWebsockets - 1 }, ())
  | .wsSend _ _, o => (w, o.roomy)
  | .wsClose _, _ => (w, ())

end World

/-- A program of one of the two services. -/
abbrev Prog := Async.Program Cmd Reply Exc

/-- Issue one command. -/
abbrev issue (c : Cmd) : Prog (Reply c) := Async.perform c

end CodeInterpreter
