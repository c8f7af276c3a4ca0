import CodeInterpreter.Async.Loop
import CodeInterpreter.System

/-!
# One WebSocket connection

The handlers of a streaming connection (`api/src/services/websocket.ts`) on the event loop of the
API server: the first message, the messages of the worker, the lifetime timer, and the `close` and
`error` events of the socket, in any order with the replies that the handlers await.

A handler runs up to its next `await`. Two continuations that come only one tick later are awaited
as well, since another event may be handled before them: the `catch` of `onStart`, and the closing
of the socket after `await cleanup()`. How much is buffered when a frame is sent is arbitrary.

What the handlers do from one await to the next is written down as an automaton on the positions of
a handler, so that an invariant of a connection follows from the transitions of the automaton.

## Main definitions

* `Endpoint`, `Socket`, `SocketEvent`, `socket`: a connection and its event loop.
* `StreamPos`, `Socket.afterEvent`, `Socket.afterAnswer`: the automaton.

## Main results

* `event_turn`, `answer_turn`: the event loop follows the automaton.
* `socket_invariant`: the invariant rule for the automaton.
-/

namespace CodeInterpreter.Api

open Async

/-! ### The event loop of a connection -/

/-- An authenticated connection; `roomy n` says whether the send buffer is below the high-water mark
after the frame number `n`. -/
structure Endpoint where
  config : AppConfig
  principal : Principal
  ip : Str
  conn : ℕ
  roomy : ℕ → Bool

/-- `ws.readyState` once the connection is open. -/
inductive ReadyState
  | opened
  | closing
  | closed
  deriving DecidableEq

/-- A connection: the state of the socket, the variables of `handleConnection`, whether the first
message came, whether the handler of worker messages is attached, and the frames sent. The rest are
ghosts: whether the subscriber was created and whether it was quit, whether `cleanup` has looked at
the timer and the subscriber, whether the job was sent to Redis and whether the reply came, and how
often the gauge was decremented. -/
structure Socket where
  readyState : ReadyState := .opened
  conn : Conn := {}
  started : Bool := false
  attached : Bool := false
  frames : List ServerFrame := []
  created : Bool := false
  quit : Bool := false
  looked : Bool := false
  sent : Bool := false
  enqueued : Bool := false
  decremented : ℕ := 0

/-- What happens to a connection. -/
inductive SocketEvent
  | message (frame : StartFrame)
  | worker (message : Option StreamMessage)
  | lifetime
  | closing
  | close
  | error

variable (e : Endpoint)

namespace Socket

/-- `send`: nothing is sent once the socket is not open. -/
def send (d : Socket) (frame : ServerFrame) : Socket :=
  if d.readyState = .opened then { d with frames := d.frames ++ [frame] } else d

/-- What `send` returns. -/
def sendOk (d : Socket) : Bool := d.readyState = .opened && e.roomy d.frames.length

/-- The effect of a command that is not awaited, with its reply, and what happens when one that is
awaited is issued. -/
def issue (d : Socket) : (c : Cmd) → Socket × Option (Reply c)
  | .wsAssignSlot _ jobId => ({ d with conn := { d.conn with slotJobId := some jobId } }, some ())
  | .wsConnect _ =>
    ({ d with conn := { d.conn with subscriber := true }, created := true }, some ())
  | .wsStartTimer _ =>
    ({ d with
        conn := { d.conn with lifetimeTimer := true }
        attached := d.attached || d.conn.subscriber }, some d.conn.subscriber)
  | .wsSettle _ => ({ d with conn := { d.conn with settled := true } }, some d.conn.settled)
  | .wsCleanup _ =>
    ({ d with conn := { d.conn with cleanedUp := true } },
      some (if d.conn.cleanedUp then none else some d.conn.slotJobId))
  | .wsClearTimer _ =>
    ({ d with
        conn := { d.conn with slotJobId := none, lifetimeTimer := false }
        looked := true }, some d.conn.subscriber)
  | .wsClosed _ =>
    ({ d with
        conn := { d.conn with subscriber := false }
        decremented := d.decremented + 1 }, some ())
  | .wsSend _ (.streamError _) => (d, none)
  | .wsSend _ frame => (d.send frame, some (d.sendOk e))
  | .enqueue _ _ => ({ d with sent := true }, none)
  | _ => (d, none)

/-- The effect of an answer. A subscriber that cannot be quit is disconnected. -/
def answered (d : Socket) : (c : Cmd) → Except Exc (Reply c) → Socket
  | .enqueue _ _, .ok _ => { d with enqueued := true }
  | .wsQuit _, _ => { d with quit := true }
  | .wsClose _, _ => if d.readyState = .opened then { d with readyState := .closing } else d
  | .wsSend _ frame, _ => d.send frame
  | _, _ => d

/-- An answer is a reply or, for a command that may fail, an exception. -/
def complete (d : Socket) (c : Cmd) (r : Except Exc (Reply c)) : Option Socket :=
  match r with
  | .ok _ => some (d.answered c r)
  | .error _ => if mayFail c then some (d.answered c r) else none

/-- The handler of an event. Only the first message counts, messages of the worker arrive after the
job was sent and until the subscriber is quit, and nothing comes from a closed socket. -/
def event (d : Socket) : SocketEvent → Option (Socket × Prog Unit)
  | .message frame =>
    if d.started = false ∧ d.readyState ≠ .closed then
      some ({ d with started := true }, onStart e.config e.principal e.ip e.conn frame)
    else none
  | .worker message =>
    if d.attached = true ∧ d.quit = false ∧ d.sent = true then
      some (d, onWorkerMessage e.principal e.conn message)
    else none
  | .lifetime =>
    if d.conn.lifetimeTimer then
      some ({ d with conn := { d.conn with lifetimeTimer := false } },
        onLifetime e.principal e.conn)
    else none
  | .closing =>
    if d.readyState = .opened then some ({ d with readyState := .closing }, pure ()) else none
  | .close =>
    if d.readyState = .closed then none
    else some ({ d with readyState := .closed }, cleanup e.principal e.conn)
  | .error => if d.readyState = .closed then none else some (d, finish e.principal e.conn)

end Socket

/-- The event loop of a connection. -/
def socket : Loop Socket Cmd Reply Exc SocketEvent where
  init := {}
  issue := Socket.issue e
  complete := Socket.complete
  event := Socket.event e

/-! ### The automaton -/

/-- Who runs `cleanup`: the `close` event, `finish`, or `finish` inside `onStart`. -/
inductive Caller
  | close
  | finish
  | start
  deriving DecidableEq

/-- Where a handler can be: in one of the awaits of `onStart`, before its `catch`, in one of the two
awaits of `cleanup`, before the closing of the socket, or at its end. -/
inductive StreamPos
  | rate (sub : Submission)
  | acquire (sub : Submission)
  | subscribe (sub : Submission)
  | group (sub : Submission)
  | enqueue (sub : Submission)
  | caught (x : Exc)
  | release (caller : Caller) (jobId : Str)
  | quit (caller : Caller)
  | closing (caller : Caller)
  | ended

/-- What is left of `cleanup` once the slot is released. -/
def cleanupRest (conn : ℕ) : Prog Unit := do
  let subscriber : Bool ← issue (.wsClearTimer conn)
  if subscriber then tryCatch (issue (.wsQuit conn)) fun _ => pure () else pure ()
  issue (.wsClosed conn)

/-- The `catch` of the promise of `onStart`. -/
def onCaught (principal : Principal) (conn : ℕ) (x : Exc) : Prog Unit := do
  let _ ← issue (.wsSend conn (.streamError x))
  finish principal conn

/-- What `onStart` does is inside of its promise. -/
def Caller.within (caller : Caller) (p : Prog Unit) : Prog Unit :=
  match caller with
  | .start => tryCatch p (onCaught e.principal e.conn)
  | _ => p

/-- What follows `cleanup` in the handler that called it. -/
def Caller.around (caller : Caller) (p : Prog Unit) : Prog Unit :=
  match caller with
  | .close => p
  | caller => caller.within e (p >>= fun _ => issue (.wsClose e.conn))

/-- The submission as it is made for the principal of the connection. -/
def Endpoint.own (sub : Submission) : Submission := { sub with principal := e.principal }

/-- The program that is left at a position. -/
def StreamPos.prog : StreamPos → Prog Unit
  | .rate sub => onStart e.config e.principal e.ip e.conn (.start sub)
  | .acquire sub => tryCatch (do
      if ← acquireSlot e.config e.principal sub.jobId then startStream (e.own sub) e.conn
      else
        refuse e.principal e.conn (str "Concurrency Limit")
          (concurrencyDetail e.config e.principal.tier)) (onCaught e.principal e.conn)
  | .subscribe sub => tryCatch (do
      issue (.wsSubscribe e.conn sub.jobId)
      let attached : Bool ← issue (.wsStartTimer e.conn)
      if attached then
        enqueueJob (e.own sub)
        let _ ← issue (.wsSend e.conn (.accepted sub.jobId))
      else throw .typeError) (onCaught e.principal e.conn)
  | .group sub => tryCatch (do
      enqueueJob { e.own sub with groupEnsured := false }
      let _ ← issue (.wsSend e.conn (.accepted sub.jobId)))
        (onCaught e.principal e.conn)
  | .enqueue sub => tryCatch (do
      issue (.enqueue (e.own sub).payload (e.own sub).record)
      let _ ← issue (.wsSend e.conn (.accepted sub.jobId)))
        (onCaught e.principal e.conn)
  | .caught x => onCaught e.principal e.conn x
  | .release caller jobId =>
    caller.around e (releaseSlot e.principal.userId jobId >>= fun _ => cleanupRest e.conn)
  | .quit caller => caller.around e (do
      tryCatch (issue (.wsQuit e.conn)) fun _ => pure ()
      issue (.wsClosed e.conn))
  | .closing caller => caller.within e (issue (.wsClose e.conn))
  | .ended => pure ()

/-- Where the handler is when `cleanup` has returned. -/
def Caller.next : Caller → StreamPos
  | .close => .ended
  | caller => .closing caller

namespace Socket

/-- The end of `cleanup`: the variable is reset and the gauge decremented. -/
def closeDown (d : Socket) : Socket :=
  { d with conn := { d.conn with subscriber := false }, decremented := d.decremented + 1 }

/-- `cleanup` looks at the timer and at the subscriber. -/
def look (d : Socket) (caller : Caller) : Socket × StreamPos :=
  let d' := { d with
    conn := { d.conn with slotJobId := none, lifetimeTimer := false }
    looked := true }
  if d.conn.subscriber then (d', .quit caller) else (d'.closeDown, caller.next)

/-- A call of `cleanup`. -/
def cleanup (d : Socket) (caller : Caller) : Socket × StreamPos :=
  let d' := { d with conn := { d.conn with cleanedUp := true } }
  if d.conn.cleanedUp then (d', caller.next)
  else
    match d.conn.slotJobId with
    | some jobId => (d', .release caller jobId)
    | none => d'.look caller

/-- A call of `finish`. -/
def finish (d : Socket) (caller : Caller) : Socket × StreamPos :=
  let d' := { d with conn := { d.conn with settled := true } }
  if d.conn.settled then (d', .ended) else d'.cleanup caller

/-- A call of `finish` after an error frame. -/
def refuse (d : Socket) (caller : Caller) (title detail : Str) : Socket × StreamPos :=
  (d.send (.error title detail)).finish caller

/-- The handler of an event, from the state in which it is called. -/
def afterEvent (d : Socket) : SocketEvent → Socket × StreamPos
  | .message .notJson =>
    d.refuse .start (str "Bad frame") (str "First frame must be valid JSON.")
  | .message .null => (d, .caught .typeError)
  | .message .notStart => d.refuse .start (str "Bad frame") (str "Expected a `start` frame.")
  | .message (.invalid detail) => d.refuse .start (str "Validation Error") detail
  | .message (.start sub) => (d, .rate sub)
  | .worker none => (d, .ended)
  | .worker (some (.done exitCode status wallTimeMs timedOut oomKilled)) =>
    (d.send (.exit exitCode status wallTimeMs timedOut oomKilled)).finish .finish
  | .worker (some message) =>
    if d.sendOk e then (d.send (forwarded message), .ended)
    else
      (d.send (forwarded message)).refuse .finish (str "Backpressure")
        (str "Client is too slow to consume output; closing the stream.")
  | .lifetime =>
    d.refuse .finish (str "Stream timeout") (str "Maximum stream lifetime reached.")
  | .closing => (d, .ended)
  | .close => d.cleanup .close
  | .error => d.finish .finish

/-- The slot is noted and the subscriber created. -/
def connect (d : Socket) (jobId : Str) : Socket :=
  { d with
    conn := { d.conn with slotJobId := some jobId, subscriber := true }
    created := true }

/-- The timer is armed and the handler of messages attached, if there is still a subscriber. -/
def arm (d : Socket) : Socket :=
  { d with
    conn := { d.conn with lifetimeTimer := true }
    attached := d.attached || d.conn.subscriber }

/-- `onStart` after its subscription. -/
def subscribed (d : Socket) (sub : Submission) : Socket × StreamPos :=
  if d.conn.subscriber then
    if sub.groupEnsured then ({ d.arm with sent := true }, .enqueue sub) else (d.arm, .group sub)
  else (d.arm, .caught .typeError)

/-- The effect of an answer to the await at a position, and how the handler goes on. -/
def afterAnswer (d : Socket) (answer : (c : Cmd) → Except Exc (Reply c)) :
    StreamPos → Socket × StreamPos
  | .rate sub =>
    match (answer (.rateLimit e.principal e.ip) : Except Exc (Option ℕ)) with
    | .ok none => (d, .acquire sub)
    | .ok (some retryAfterMs) =>
      d.refuse .start (str "Too Many Requests")
        (str "Rate limit exceeded. Retry after " ++ decimal ((retryAfterMs + 999) / 1000)
          ++ str "s.")
    | .error x => (d, .caught x)
  | .acquire sub =>
    match (answer (.acquire e.principal.userId sub.jobId
        (concurrencyLimitForTier e.config e.principal.tier) (slotTtlMs e.config)) :
        Except Exc Bool) with
    | .ok false =>
      d.refuse .start (str "Concurrency Limit") (concurrencyDetail e.config e.principal.tier)
    | _ => (d.connect sub.jobId, .subscribe sub)
  | .subscribe sub =>
    match answer (.wsSubscribe e.conn sub.jobId) with
    | .ok _ => d.subscribed sub
    | .error x => (d, .caught x)
  | .group sub =>
    match answer .xgroupCreate with
    | .ok _ => ({ d with sent := true }, .enqueue sub)
    | .error x => (d, .caught x)
  | .enqueue sub =>
    match answer (.enqueue (e.own sub).payload (e.own sub).record) with
    | .ok _ => ({ d with enqueued := true }.send (.accepted sub.jobId), .ended)
    | .error x => (d, .caught x)
  | .caught x => (d.send (.streamError x)).finish .finish
  | .release caller _ => d.look caller
  | .quit caller => ({ d with quit := true }.closeDown, caller.next)
  | .closing _ =>
    (if d.readyState = .opened then { d with readyState := .closing } else d, .ended)
  | .ended => (d, .ended)

end Socket

/-! ### Turns -/

section

variable {e} {d : Socket}

/-- The task that is at a position, with the data. -/
def StreamPos.at (e : Endpoint) (x : Socket × StreamPos) : Socket × Prog Unit := (x.1, x.2.prog e)

theorem advance_cleanupRest (caller : Caller) :
    (socket e).advance d (caller.around e (cleanupRest e.conn)) =
      StreamPos.at e (d.look caller) := by
  obtain ⟨_, ⟨_, subscriber, _, _, _⟩, _, _, _, _, _, _, _, _, _⟩ := d
  cases subscriber <;> cases caller <;> rfl

theorem advance_cleanup (caller : Caller) :
    (socket e).advance d (caller.around e (cleanup e.principal e.conn)) =
      StreamPos.at e (d.cleanup caller) := by
  obtain ⟨_, ⟨slotJobId, _, _, _, cleanedUp⟩, _, _, _, _, _, _, _, _, _⟩ := d
  cases cleanedUp with
  | true => cases caller <;> rfl
  | false =>
    cases slotJobId with
    | some jobId => cases caller <;> rfl
    | none => 
      refine Eq.trans ?_ (advance_cleanupRest caller)
      cases caller <;> rfl

theorem advance_finish (caller : Caller) (h : caller ≠ .close) :
    (socket e).advance d (caller.within e (finish e.principal e.conn)) =
      StreamPos.at e (d.finish caller) := by
  obtain ⟨_, ⟨_, _, _, settled, _⟩, _, _, _, _, _, _, _, _, _⟩ := d
  cases settled with
  | true => cases caller <;> rfl
  | false =>
    refine Eq.trans ?_ (advance_cleanup caller)
    cases caller with
    | close => exact absurd rfl h
    | finish => rfl
    | start => rfl

theorem advance_refuse (caller : Caller) (h : caller ≠ .close) (title detail : Str) :
    (socket e).advance d (caller.within e (refuse e.principal e.conn title detail)) =
      StreamPos.at e (d.refuse caller title detail) := by
  refine Eq.trans ?_ (advance_finish caller h)
  cases caller <;> rfl

/-- A message that is not the last one is forwarded, and a slow client is disconnected. -/
theorem advance_forward {message : StreamMessage}
    (h : ∀ exitCode status wallTimeMs timedOut oomKilled,
      message ≠ .done exitCode status wallTimeMs timedOut oomKilled) :
    (socket e).advance d (onWorkerMessage e.principal e.conn (some message)) =
      StreamPos.at e (d.afterEvent e (.worker (some message))) := by
  have hsend : (socket e).advance d (onWorkerMessage e.principal e.conn (some message)) =
      (socket e).advance (d.send (forwarded message)) (if d.sendOk e then pure ()
        else refuse e.principal e.conn (str "Backpressure")
          (str "Client is too slow to consume output; closing the stream.")) := by
    cases message with
    | done => exact absurd rfl (h _ _ _ _ _)
    | stdout data => rfl
    | stderr data => rfl
    | status status => rfl
  have hturn : d.afterEvent e (.worker (some message)) =
      if d.sendOk e then (d.send (forwarded message), .ended)
      else (d.send (forwarded message)).refuse .finish (str "Backpressure")
        (str "Client is too slow to consume output; closing the stream.") := by
    cases message with
    | done => exact absurd rfl (h _ _ _ _ _)
    | stdout data => rfl
    | stderr data => rfl
    | status status => rfl
  rw [hsend, hturn]
  by_cases hok : d.sendOk e
  · rw [if_pos hok, if_pos hok]
    rfl
  · rw [if_neg hok, if_neg hok]
    exact advance_refuse .finish Caller.noConfusion _ _

theorem advance_subscribed (sub : Submission) :
    (socket e).advance d (tryCatch (do
      let attached : Bool ← issue (.wsStartTimer e.conn)
      if attached then
        enqueueJob (e.own sub)
        let _ ← issue (.wsSend e.conn (.accepted sub.jobId))
      else throw .typeError) (onCaught e.principal e.conn)) =
      StreamPos.at e (d.subscribed sub) := by
  obtain ⟨_, ⟨_, subscriber, _, _, _⟩, _, _, _, _, _, _, _, _, _⟩ := d
  obtain ⟨_, _, _, _, _, groupEnsured⟩ := sub
  cases subscriber <;> cases groupEnsured <;> rfl

/-- The handler of an event follows the automaton. -/
theorem event_turn {v : SocketEvent} {d' : Socket} {p : Prog Unit}
    (h : (socket e).event d v = some (d', p)) :
    (socket e).advance d' p = StreamPos.at e (d'.afterEvent e v) := by
  cases v with
  | message frame =>
    obtain ⟨_, hp⟩ := Option.ite_none_right_eq_some.mp h
    obtain ⟨-, rfl⟩ := Prod.mk.inj (Option.some.inj hp)
    cases frame with
    | notJson => exact advance_refuse .start Caller.noConfusion _ _
    | null => rfl
    | notStart => exact advance_refuse .start Caller.noConfusion _ _
    | invalid detail => exact advance_refuse .start Caller.noConfusion _ _
    | start sub => rfl
  | worker message =>
    obtain ⟨_, hp⟩ := Option.ite_none_right_eq_some.mp h
    obtain ⟨-, rfl⟩ := Prod.mk.inj (Option.some.inj hp)
    cases message with
    | none => rfl
    | some message =>
      cases message with
      | done => exact advance_finish .finish Caller.noConfusion
      | stdout data => exact advance_forward fun _ _ _ _ _ => StreamMessage.noConfusion
      | stderr data => exact advance_forward fun _ _ _ _ _ => StreamMessage.noConfusion
      | status status => exact advance_forward fun _ _ _ _ _ => StreamMessage.noConfusion
  | lifetime =>
    obtain ⟨_, hp⟩ := Option.ite_none_right_eq_some.mp h
    obtain ⟨-, rfl⟩ := Prod.mk.inj (Option.some.inj hp)
    exact advance_refuse .finish Caller.noConfusion _ _
  | closing =>
    obtain ⟨_, hp⟩ := Option.ite_none_right_eq_some.mp h
    obtain ⟨-, rfl⟩ := Prod.mk.inj (Option.some.inj hp)
    rfl
  | close =>
    obtain ⟨_, hp⟩ := Option.ite_none_left_eq_some.mp h
    obtain ⟨-, rfl⟩ := Prod.mk.inj (Option.some.inj hp)
    exact advance_cleanup .close
  | error =>
    obtain ⟨_, hp⟩ := Option.ite_none_left_eq_some.mp h
    obtain ⟨-, rfl⟩ := Prod.mk.inj (Option.some.inj hp)
    exact advance_finish .finish Caller.noConfusion

/-- A handler that is resumed follows the automaton. -/
theorem answer_turn {x : StreamPos} {c : Cmd} {k : Except Exc (Reply c) → Prog Unit}
    (hx : x.prog e = .call c k) {answer : (c : Cmd) → Except Exc (Reply c)} {d' : Socket}
    (h : (socket e).complete d c (answer c) = some d') :
    (socket e).advance d' (k (answer c)) = StreamPos.at e (d.afterAnswer e answer x) := by
  obtain ⟨rfl, hok⟩ : d' = d.answered c (answer c) ∧
      (mayFail c = false → ∃ r, answer c = .ok r) := by
    change d.complete c (answer c) = some d' at h
    cases hanswer : answer c with
    | ok r =>
      rw [hanswer] at h
      exact ⟨(Option.some.inj h).symm, fun _ => ⟨r, rfl⟩⟩
    | error ex =>
      rw [hanswer] at h
      obtain ⟨hfail, hd⟩ := Option.ite_none_right_eq_some.mp h
      refine ⟨(Option.some.inj hd).symm, fun hc => ?_⟩
      rw [hc] at hfail
      cases hfail
  cases x with
  | rate sub =>
    cases hx
    dsimp only [Socket.afterAnswer]
    generalize answer (.rateLimit e.principal e.ip) = r
    match r with
    | .ok none => rfl
    | .ok (some retryAfterMs) => exact advance_refuse .start Caller.noConfusion _ _
    | .error ex => rfl
  | acquire sub =>
    cases hx
    dsimp only [Socket.afterAnswer]
    generalize answer (.acquire _ _ _ _) = r
    match r with
    | .ok true => rfl
    | .ok false => exact advance_refuse .start Caller.noConfusion _ _
    | .error ex => rfl
  | subscribe sub =>
    cases hx
    dsimp only [Socket.afterAnswer]
    generalize answer (.wsSubscribe _ _) = r
    match r with
    | .ok _ => exact advance_subscribed sub
    | .error ex => rfl
  | group sub =>
    cases hx
    dsimp only [Socket.afterAnswer]
    generalize answer .xgroupCreate = r
    match r with
    | .ok _ => rfl
    | .error ex => rfl
  | enqueue sub =>
    cases hx
    dsimp only [Socket.afterAnswer]
    generalize answer (.enqueue _ _) = r
    match r with
    | .ok _ => rfl
    | .error ex => rfl
  | caught ex =>
    cases hx
    obtain ⟨r, hr⟩ := hok rfl
    rw [hr]
    exact advance_finish .finish Caller.noConfusion
  | release caller jobId =>
    have hrest : (socket e).advance (d.answered c (answer c)) (k (answer c)) =
        (socket e).advance d (caller.around e (cleanupRest e.conn)) := by
      cases caller with
      | close => cases hx; generalize answer (.zrem _ _) = r; cases r <;> rfl
      | finish => cases hx; generalize answer (.zrem _ _) = r; cases r <;> rfl
      | start => cases hx; generalize answer (.zrem _ _) = r; cases r <;> rfl
    rw [hrest]
    exact advance_cleanupRest caller
  | quit caller =>
    cases caller with
    | close => cases hx; generalize answer (.wsQuit _) = r; cases r <;> rfl
    | finish => cases hx; generalize answer (.wsQuit _) = r; cases r <;> rfl
    | start => cases hx; generalize answer (.wsQuit _) = r; cases r <;> rfl
  | closing caller =>
    cases caller with
    | close => cases hx; obtain ⟨r, hr⟩ := hok rfl; rw [hr]; rfl
    | finish => cases hx; obtain ⟨r, hr⟩ := hok rfl; rw [hr]; rfl
    | start => cases hx; obtain ⟨r, hr⟩ := hok rfl; rw [hr]; rfl
  | ended => cases hx

/-- Every position but the last one awaits something. -/
theorem StreamPos.eq_ended {x : StreamPos} (h : (x.prog e).Finished) : x = .ended := by
  cases x with
  | release caller jobId => cases caller <;> exact False.elim h
  | quit caller => cases caller <;> exact False.elim h
  | closing caller => cases caller <;> exact False.elim h
  | ended => rfl
  | _ => exact False.elim h

/-- **The invariant rule of a connection.** The handlers are always at positions, and what holds
of the data and the positions initially and along the automaton holds in every state of a run. -/
theorem socket_invariant
    {A : LoopState Socket Cmd Reply Exc → Turn Cmd Reply Exc SocketEvent → Prop}
    {I : Socket → List StreamPos → Prop} {s : LoopState Socket Cmd Reply Exc}
    (h : (socket e).Run A s) (hinit : I {} [])
    (hevent : ∀ d xs v d' p, A ⟨d, xs.map (StreamPos.prog e)⟩ (.event v) → I d xs →
      d.event e v = some (d', p) →
      I (d'.afterEvent e v).1 (xs ++ [(d'.afterEvent e v).2]))
    (hanswer : ∀ d l x r answer c k, A ⟨d, (l ++ x :: r).map (StreamPos.prog e)⟩
        (.resume l.length answer) → I d (l ++ x :: r) → x.prog e = .call c k →
      I (d.afterAnswer e answer x).1 (l ++ (d.afterAnswer e answer x).2 :: r)) :
    ∃ xs, s.tasks = xs.map (StreamPos.prog e) ∧ I s.data xs := by
  refine h.positions hinit ?_ ?_
  · intro d xs v d' p ha hI hv
    exact ⟨_, _, event_turn hv, hevent d xs v d' p ha hI hv⟩
  · intro d l x r answer c k d' ha hI hx hd
    exact ⟨_, _, answer_turn hx hd, hanswer d l x r answer c k ha hI hx⟩

end

/-! ### A connection -/

/-- Anna's connection, to a client that keeps up. -/
def sampleEndpoint : Endpoint where
  config := Deployment.default.app
  principal := anna
  ip := str "10.0.0.1"
  conn := 0
  roomy _ := true

/-- Redis answers everything, the rate limit does not block and there is a slot. -/
def sampleAnswer : (c : Cmd) → Except Exc (Reply c)
  | .rateLimit _ _ => .ok none
  | .acquire _ _ _ _ => .ok true
  | .wsSubscribe _ _ => .ok ()
  | .enqueue _ _ => .ok ()
  | .zrem _ _ => .ok ()
  | .wsQuit _ => .ok ()
  | .wsClose _ => .ok ()
  | _ => .error .other

/-- The handler number `i` gets its answer. -/
def answerTo (i : ℕ) : Turn Cmd Reply Exc SocketEvent := .resume i sampleAnswer

/-- The first message of the sample connection. -/
def startSample : Turn Cmd Reply Exc SocketEvent :=
  .event (.message (.start (sampleSubmission sampleId)))

/-- The sample connection after some turns. -/
def sampleStream (turns : List (Turn Cmd Reply Exc SocketEvent)) :
    LoopState Socket Cmd Reply Exc :=
  (socket sampleEndpoint).run (socket sampleEndpoint).start turns

end CodeInterpreter.Api
