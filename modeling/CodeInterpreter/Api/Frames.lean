import CodeInterpreter.Api.Stream

/-!
# The frames of a stream

The protocol of a stream (`docs/API.md`): one `accepted` frame, then output and status frames, then
at most one terminal frame, `exit` or `error`, and nothing after it. The handler of worker messages
and the lifetime timer send their frames whenever they are called, and `onStart` sends `accepted`
when the reply to the enqueue comes. So the protocol holds as long as, on an open socket, they are
called after that reply and before `finish` has begun.

## Main definitions

* `inOrder`: the protocol.
* `Accepting`: the turns of a stream whose start frame is accepted and whose socket stays open.
* `Orderly`: the worker and the timer are heard between the reply to the enqueue and `finish`.
* `Streaming`: the phases of a stream.

## Main results

* `inOrder_of_orderly`: a stream all of whose turns are orderly keeps to the protocol.
* `status_before_accepted`: a worker that is faster than the reply to the enqueue breaks it.
-/

namespace CodeInterpreter.Api

open Async

/-! ### The protocol -/

/-- Frames that may stand between `accepted` and the terminal frame. -/
def isProgress : ServerFrame → Bool
  | .status _ | .stdout _ | .stderr _ => true
  | _ => false

/-- Terminal frames. -/
def isTerminal : ServerFrame → Bool
  | .exit _ _ _ _ _ | .error _ _ | .streamError _ => true
  | _ => false

/-- The frames after `accepted`. -/
def progressThenEnd : List ServerFrame → Bool
  | [] => true
  | frame :: rest =>
    if isProgress frame then progressThenEnd rest else isTerminal frame && rest.isEmpty

/-- The frames of a stream, so far, keep to the protocol. -/
def inOrder : List ServerFrame → Bool
  | [] => true
  | .accepted _ :: rest => progressThenEnd rest
  | _ => false

theorem progressThenEnd_of_progress {frames : List ServerFrame}
    (h : ∀ frame ∈ frames, isProgress frame = true) : progressThenEnd frames = true := by
  induction frames with
  | nil => rfl
  | cons frame rest ih =>
    rw [progressThenEnd, if_pos (h frame List.mem_cons_self)]
    exact ih fun frame' h' => h frame' (List.mem_cons_of_mem _ h')

theorem progressThenEnd_append {frames : List ServerFrame} {last : ServerFrame}
    (h : ∀ frame ∈ frames, isProgress frame = true) (hlast : isTerminal last = true) :
    progressThenEnd (frames ++ [last]) = true := by
  induction frames with
  | nil =>
    have hprogress : ¬ isProgress last = true := by
      cases last <;> simp_all [isProgress, isTerminal]
    rw [List.nil_append, progressThenEnd, if_neg hprogress, hlast]
    rfl
  | cons frame rest ih =>
    rw [List.cons_append, progressThenEnd, if_pos (h frame List.mem_cons_self)]
    exact ih fun frame' h' => h frame' (List.mem_cons_of_mem _ h')

/-! ### The turns -/

/-- The answers after which `onStart` goes on to accept the stream. -/
def goesOn : (c : Cmd) → Except Exc (Reply c) → Bool
  | .rateLimit _ _, .ok blocked => Option.isNone blocked
  | .rateLimit _ _, .error _ => false
  | .acquire _ _ _ _, .ok granted => granted
  | .wsSubscribe _ _, .error _ => false
  | .xgroupCreate, .error _ => false
  | .enqueue _ _, .error _ => false
  | _, _ => true

/-- The start frame is accepted and the socket stays open until the server closes it. -/
def accepting (s : LoopState Socket Cmd Reply Exc) : Turn Cmd Reply Exc SocketEvent → Bool
  | .event (.message (.start _)) => true
  | .event (.message _) => false
  | .event .closing | .event .close | .event .error => s.data.readyState ≠ .opened
  | .event _ => true
  | .resume i answer =>
    match s.tasks[i]? with
    | some (.call c _) => goesOn c (answer c)
    | _ => true

/-- While the socket is open, worker messages and the timer are handled after the reply to the
enqueue and before `finish` has begun. -/
def orderly (s : LoopState Socket Cmd Reply Exc) : Turn Cmd Reply Exc SocketEvent → Bool
  | .event (.worker (some _)) | .event .lifetime =>
    s.data.readyState ≠ .opened || (s.data.enqueued && !s.data.conn.settled)
  | _ => true

/-- A turn of a stream whose start frame is accepted and whose socket stays open. -/
def Accepting (s : LoopState Socket Cmd Reply Exc) (a : Turn Cmd Reply Exc SocketEvent) : Prop :=
  accepting s a = true

/-- Such a turn, which is orderly. -/
def Orderly (s : LoopState Socket Cmd Reply Exc) (a : Turn Cmd Reply Exc SocketEvent) : Prop :=
  Accepting s a ∧ orderly s a = true

/-! ### The phases of a stream -/

section

variable {e : Endpoint} {d : Socket} {xs : List StreamPos}

/-- The handler has not ended. -/
def StreamPos.waits : StreamPos → Bool
  | .ended => false
  | _ => true

/-- A position of `onStart` on its way to accept the stream, given the variable `subscriber`. -/
def StreamPos.starts (subscriber : Bool) : StreamPos → Bool
  | .rate _ | .acquire _ | .group _ | .enqueue _ => true
  | .subscribe _ => subscriber
  | _ => false

/-- A position of `finish` or `cleanup`. -/
def StreamPos.finishes : StreamPos → Bool
  | .release _ _ | .quit _ | .closing _ | .ended => true
  | _ => false

/-- Before the start frame, or with an accepted stream that goes on. -/
structure Idle (d : Socket) : Prop where
  opened : d.readyState = .opened
  settled : d.conn.settled = false
  started : d.started = d.enqueued
  frames : if d.enqueued then ∃ jobId mid, d.frames = .accepted jobId :: mid ∧
    ∀ frame ∈ mid, isProgress frame = true else d.frames = []

/-- `onStart` is under way. -/
structure Starting (d : Socket) : Prop where
  opened : d.readyState = .opened
  settled : d.conn.settled = false
  started : d.started = true
  enqueued : d.enqueued = false
  frames : d.frames = []

/-- A terminal frame was sent and `finish` has begun. -/
structure Finishing (d : Socket) : Prop where
  settled : d.conn.settled = true
  started : d.started = true
  enqueued : d.enqueued = true
  frames : ∃ jobId mid last, d.frames = .accepted jobId :: (mid ++ [last]) ∧
    (∀ frame ∈ mid, isProgress frame = true) ∧ isTerminal last = true

/-- The phases of a stream, with the positions of its handlers. -/
inductive Streaming : Socket → List StreamPos → Prop
  | idle {d : Socket} {xs : List StreamPos} (hd : Idle d) (hxs : xs.countP StreamPos.waits = 0) :
      Streaming d xs
  | starting {d : Socket} {xs : List StreamPos} (hd : Starting d)
      (hxs : xs.countP StreamPos.waits = 1)
      (hstarts : ∀ x ∈ xs, x.waits = true → x.starts d.conn.subscriber = true) : Streaming d xs
  | finishing {d : Socket} {xs : List StreamPos} (hd : Finishing d)
      (hxs : ∀ x ∈ xs, x.finishes = true) : Streaming d xs

theorem inOrder_of_streaming (h : Streaming d xs) : inOrder d.frames = true := by
  cases h with
  | idle hd _ =>
    have hframes := hd.frames
    split at hframes
    · obtain ⟨jobId, mid, hmid, hprogress⟩ := hframes
      rw [hmid]
      exact progressThenEnd_of_progress hprogress
    · rw [hframes]
      rfl
  | starting hd _ _ =>
    rw [hd.frames]
    rfl
  | finishing hd _ =>
    obtain ⟨jobId, mid, last, hframes, hprogress, hlast⟩ := hd.frames
    rw [hframes]
    exact progressThenEnd_append hprogress hlast

/-! ### Finishing -/

theorem Caller.finishes_next (caller : Caller) : caller.next.finishes = true := by
  cases caller <;> rfl

/-- What does not change from a state to another, once a stream is finishing. -/
theorem Finishing.of_eq (h : Finishing d) {d' : Socket}
    (hsettled : d'.conn.settled = d.conn.settled) (hstarted : d'.started = d.started)
    (henqueued : d'.enqueued = d.enqueued)
    (hframes : d'.frames = d.frames) : Finishing d' :=
  ⟨hsettled.trans h.settled, hstarted.trans h.started, henqueued.trans h.enqueued,
    hframes ▸ h.frames⟩

/-- A turn that ends in a finishing stream. -/
def FinishesAt (x : Socket × StreamPos) : Prop := Finishing x.1 ∧ x.2.finishes = true

theorem Finishing.look (h : Finishing d) (caller : Caller) : FinishesAt (d.look caller) := by
  by_cases hs : d.conn.subscriber
  · rw [Socket.look, if_pos hs]
    exact ⟨h.of_eq rfl rfl rfl rfl, rfl⟩
  · rw [Socket.look, if_neg hs]
    exact ⟨h.of_eq rfl rfl rfl rfl, caller.finishes_next⟩

theorem Finishing.cleanup (h : Finishing d) (caller : Caller) : FinishesAt (d.cleanup caller) := by
  have hnow : Finishing { d with conn := { d.conn with cleanedUp := true } } :=
    h.of_eq rfl rfl rfl rfl
  by_cases hc : d.conn.cleanedUp
  · rw [Socket.cleanup, if_pos hc]
    exact ⟨hnow, caller.finishes_next⟩
  · rw [Socket.cleanup, if_neg hc]
    split
    · exact ⟨hnow, rfl⟩
    · exact hnow.look caller

theorem Finishing.finish (h : Finishing d) (caller : Caller) : FinishesAt (d.finish caller) := by
  rw [Socket.finish, if_pos h.settled]
  exact ⟨⟨rfl, h.started, h.enqueued, h.frames⟩, rfl⟩

/-- An accepted stream sends its terminal frame and begins to finish. -/
theorem Idle.finish (h : Idle d) (henqueued : d.enqueued = true) {last : ServerFrame}
    (hlast : isTerminal last = true) (caller : Caller) :
    FinishesAt ((d.send last).finish caller) := by
  have hframes := h.frames
  rw [if_pos henqueued] at hframes
  obtain ⟨jobId, mid, hmid, hprogress⟩ := hframes
  have hnow : Finishing { d.send last with
      conn := { (d.send last).conn with settled := true } } := by
    rw [Socket.send, if_pos h.opened]
    refine ⟨rfl, h.started.trans henqueued, henqueued, jobId, mid, last, ?_, hprogress, hlast⟩
    simp [hmid]
  have hsettled : ¬ (d.send last).conn.settled = true := by
    rw [Socket.send, if_pos h.opened, h.settled]
    exact Bool.false_ne_true
  rw [Socket.finish, if_neg hsettled]
  exact hnow.cleanup caller

/-- An accepted stream sends a frame. -/
theorem Idle.send (h : Idle d) (henqueued : d.enqueued = true) {frame : ServerFrame}
    (hframe : isProgress frame = true) : Idle (d.send frame) := by
  have hframes := h.frames
  rw [if_pos henqueued] at hframes
  obtain ⟨jobId, mid, hmid, hprogress⟩ := hframes
  rw [Socket.send, if_pos h.opened]
  refine ⟨h.opened, h.settled, h.started, ?_⟩
  rw [if_pos henqueued]
  refine ⟨jobId, mid ++ [frame], by simp [hmid], fun frame' h' => ?_⟩
  rcases List.mem_append.mp h' with h' | h'
  · exact hprogress frame' h'
  · rw [List.mem_singleton.mp h']
    exact hframe

/-- Once the socket is not open any more, nothing is sent. -/
theorem send_of_not_opened (h : d.readyState ≠ .opened) (frame : ServerFrame) :
    d.send frame = d := by
  rw [Socket.send, if_neg h]

/-! ### Events -/

theorem StreamPos.finishes_of_not_waits {x : StreamPos} (h : x.waits = false) :
    x.finishes = true := by
  cases x <;> simp_all [StreamPos.waits, StreamPos.finishes]

theorem finishes_of_countP (h : xs.countP StreamPos.waits = 0) : ∀ x ∈ xs, x.finishes = true :=
  fun x hx => StreamPos.finishes_of_not_waits (by simpa using List.countP_eq_zero.mp h x hx)

theorem Streaming.finishes_append (hxs : ∀ x ∈ xs, x.finishes = true) {y : Socket × StreamPos}
    (hy : FinishesAt y) : Streaming y.1 (xs ++ [y.2]) := by
  refine .finishing hy.1 fun x hx => ?_
  rcases List.mem_append.mp hx with hx | hx
  · exact hxs x hx
  · rw [List.mem_singleton.mp hx]
    exact hy.2

theorem Streaming.idle_append (h : Idle d) (hxs : xs.countP StreamPos.waits = 0) :
    Streaming d (xs ++ [.ended]) := by
  refine .idle h ?_
  rw [List.countP_append, hxs]
  rfl

theorem Streaming.ended_append (h : Streaming d xs) : Streaming d (xs ++ [.ended]) := by
  cases h with
  | idle hd hxs => exact .idle_append hd hxs
  | starting hd hxs hstarts =>
    refine .starting hd ?_ fun x hx hwaits => ?_
    · rw [List.countP_append, hxs]
      rfl
    · rcases List.mem_append.mp hx with hx | hx
      · exact hstarts x hx hwaits
      · rw [List.mem_singleton.mp hx] at hwaits
        cases hwaits
  | finishing hd hxs => exact .finishes_append (y := (d, .ended)) hxs ⟨hd, rfl⟩

/-- A stream whose socket is not open any more is finishing. -/
theorem Streaming.of_not_opened (h : Streaming d xs) (hopened : d.readyState ≠ .opened) :
    Finishing d ∧ ∀ x ∈ xs, x.finishes = true := by
  cases h with
  | idle hd _ => exact absurd hd.opened hopened
  | starting hd _ _ => exact absurd hd.opened hopened
  | finishing hd hxs => exact ⟨hd, hxs⟩

/-- The start frame. -/
theorem Streaming.start (h : Streaming d xs) (hstarted : d.started = false) (sub : Submission) :
    Streaming { d with started := true } (xs ++ [.rate sub]) := by
  cases h with
  | idle hd hxs =>
    have henqueued : d.enqueued = false := hd.started.symm.trans hstarted
    have hframes := hd.frames
    rw [henqueued, if_neg Bool.false_ne_true] at hframes
    refine .starting ⟨hd.opened, hd.settled, rfl, henqueued, hframes⟩ ?_ fun x hx hwaits => ?_
    · rw [List.countP_append, hxs]
      rfl
    · rcases List.mem_append.mp hx with hx | hx
      · exact absurd hwaits (List.countP_eq_zero.mp hxs x hx)
      · rw [List.mem_singleton.mp hx]
        rfl
  | starting hd _ _ =>
    rw [hd.started] at hstarted
    cases hstarted
  | finishing hd _ =>
    rw [hd.started] at hstarted
    cases hstarted

/-- The stream in which a worker message or the timer is handled. -/
theorem Streaming.heard (h : Streaming d xs)
    (ha : d.readyState ≠ .opened ∨ d.enqueued = true ∧ d.conn.settled = false) :
    (Idle d ∧ d.enqueued = true ∧ xs.countP StreamPos.waits = 0) ∨
      (Finishing d ∧ d.readyState ≠ .opened ∧ ∀ x ∈ xs, x.finishes = true) := by
  cases h with
  | idle hd hxs =>
    rcases ha with ha | ⟨henqueued, _⟩
    · exact absurd hd.opened ha
    · exact .inl ⟨hd, henqueued, hxs⟩
  | starting hd _ _ =>
    rcases ha with ha | ⟨henqueued, _⟩
    · exact absurd hd.opened ha
    · rw [hd.enqueued] at henqueued
      cases henqueued
  | finishing hd hxs =>
    rcases ha with ha | ⟨_, hsettled⟩
    · exact .inr ⟨hd, ha, hxs⟩
    · rw [hd.settled] at hsettled
      cases hsettled

/-- A terminal frame where it may be sent. -/
theorem Streaming.last (h : Streaming d xs)
    (ha : d.readyState ≠ .opened ∨ d.enqueued = true ∧ d.conn.settled = false) {last : ServerFrame}
    (hlast : isTerminal last = true) (caller : Caller) :
    Streaming ((d.send last).finish caller).1 (xs ++ [((d.send last).finish caller).2]) := by
  rcases h.heard ha with ⟨hd, henqueued, hxs⟩ | ⟨hd, hopened, hxs⟩
  · exact .finishes_append (finishes_of_countP hxs) (hd.finish henqueued hlast caller)
  · rw [send_of_not_opened hopened]
    exact .finishes_append hxs (hd.finish caller)

/-- A progress frame where it may be sent. -/
theorem Streaming.forward (h : Streaming d xs)
    (ha : d.readyState ≠ .opened ∨ d.enqueued = true ∧ d.conn.settled = false)
    {frame : ServerFrame} (hframe : isProgress frame = true) (title detail : Str) :
    let y := if d.sendOk e then (d.send frame, .ended)
      else (d.send frame).refuse .finish title detail
    Streaming y.1 (xs ++ [y.2]) := by
  rcases h.heard ha with ⟨hd, henqueued, hxs⟩ | ⟨hd, hopened, hxs⟩
  · have hsent := hd.send henqueued hframe
    have henqueued' : (d.send frame).enqueued = true := by
      rwa [Socket.send, if_pos hd.opened]
    split
    · exact .idle_append hsent hxs
    · exact .finishes_append (finishes_of_countP hxs) (hsent.finish henqueued' rfl _)
  · have hfull : ¬ d.sendOk e = true := by simp [Socket.sendOk, hopened]
    simp only [if_neg hfull, Socket.refuse, send_of_not_opened hopened]
    exact .finishes_append hxs (hd.finish _)

/-- The handler of an event. -/
theorem Streaming.event (h : Streaming d xs) {v : SocketEvent} {d' : Socket} {p : Prog Unit}
    (hv : d.event e v = some (d', p)) (ha : Orderly ⟨d, xs.map (StreamPos.prog e)⟩ (.event v)) :
    Streaming (d'.afterEvent e v).1 (xs ++ [(d'.afterEvent e v).2]) := by
  obtain ⟨haccepting, horderly⟩ := ha
  cases v with
  | message frame =>
    obtain ⟨⟨hstarted, _⟩, hp⟩ := Option.ite_none_right_eq_some.mp hv
    obtain ⟨rfl, -⟩ := Prod.mk.inj (Option.some.inj hp)
    cases frame with
    | start sub => exact h.start hstarted sub
    | _ => cases haccepting
  | worker message =>
    obtain ⟨_, hp⟩ := Option.ite_none_right_eq_some.mp hv
    obtain ⟨rfl, -⟩ := Prod.mk.inj (Option.some.inj hp)
    cases message with
    | none => exact h.ended_append
    | some message =>
      have hheard : d.readyState ≠ .opened ∨ d.enqueued = true ∧ d.conn.settled = false := by
        simpa [orderly] using horderly
      cases message with
      | done => exact h.last hheard rfl _
      | stdout data => exact h.forward hheard rfl _ _
      | stderr data => exact h.forward hheard rfl _ _
      | status status => exact h.forward hheard rfl _ _
  | lifetime =>
    obtain ⟨_, hp⟩ := Option.ite_none_right_eq_some.mp hv
    obtain ⟨rfl, -⟩ := Prod.mk.inj (Option.some.inj hp)
    have hheard : d.readyState ≠ .opened ∨ d.enqueued = true ∧ d.conn.settled = false := by
      simpa [orderly] using horderly
    have hnow : Streaming { d with conn := { d.conn with lifetimeTimer := false } } xs := by
      cases h with
      | idle hd hxs => exact .idle ⟨hd.1, hd.2, hd.3, hd.4⟩ hxs
      | starting hd hxs hstarts => exact .starting ⟨hd.1, hd.2, hd.3, hd.4, hd.5⟩ hxs hstarts
      | finishing hd hxs => exact .finishing (hd.of_eq rfl rfl rfl rfl) hxs
    exact hnow.last hheard rfl _
  | closing =>
    obtain ⟨hopened, _⟩ := Option.ite_none_right_eq_some.mp hv
    exact absurd hopened (of_decide_eq_true haccepting)
  | close =>
    obtain ⟨_, hp⟩ := Option.ite_none_left_eq_some.mp hv
    obtain ⟨rfl, -⟩ := Prod.mk.inj (Option.some.inj hp)
    obtain ⟨hd, hxs⟩ := h.of_not_opened (of_decide_eq_true haccepting)
    have hnow : Finishing { d with readyState := .closed } := hd.of_eq rfl rfl rfl rfl
    exact .finishes_append hxs (hnow.cleanup .close)
  | error =>
    obtain ⟨_, hp⟩ := Option.ite_none_left_eq_some.mp hv
    obtain ⟨rfl, -⟩ := Prod.mk.inj (Option.some.inj hp)
    obtain ⟨hd, hxs⟩ := h.of_not_opened (of_decide_eq_true haccepting)
    exact .finishes_append hxs (hd.finish .finish)

/-! ### Answers -/

/-- While `onStart` is under way every other handler has ended. -/
theorem starting_step {l r : List StreamPos} {x x' : StreamPos} {d' : Socket}
    (hxs : (l ++ x :: r).countP StreamPos.waits = 1) (hx : x.waits = true) (hd : Starting d')
    (hx' : x'.waits = true) (hstarts : x'.starts d'.conn.subscriber = true) :
    Streaming d' (l ++ x' :: r) := by
  rw [List.countP_append, List.countP_cons_of_pos hx] at hxs
  have hl : l.countP StreamPos.waits = 0 := by omega
  have hr : r.countP StreamPos.waits = 0 := by omega
  refine .starting hd ?_ fun y hy hwaits => ?_
  · rw [List.countP_append, List.countP_cons_of_pos hx', hl, hr]
  · rcases List.mem_append.mp hy with hy | hy
    · exact absurd hwaits (List.countP_eq_zero.mp hl y hy)
    · rcases List.mem_cons.mp hy with rfl | hy
      · exact hstarts
      · exact absurd hwaits (List.countP_eq_zero.mp hr y hy)

theorem subscribed_step {l r : List StreamPos} {x : StreamPos}
    (hxs : (l ++ x :: r).countP StreamPos.waits = 1) (hx : x.waits = true) (hd : Starting d)
    (hsubscriber : d.conn.subscriber = true) (sub : Submission) :
    Streaming (d.subscribed sub).1 (l ++ (d.subscribed sub).2 :: r) := by
  rw [Socket.subscribed, if_pos hsubscriber]
  split
  · exact starting_step hxs hx ⟨hd.1, hd.2, hd.3, hd.4, hd.5⟩ rfl rfl
  · exact starting_step hxs hx ⟨hd.1, hd.2, hd.3, hd.4, hd.5⟩ rfl rfl

/-- The reply to the enqueue: the stream is accepted. -/
theorem accepted_step {l r : List StreamPos} {x : StreamPos}
    (hxs : (l ++ x :: r).countP StreamPos.waits = 1) (hx : x.waits = true) (hd : Starting d)
    (jobId : Str) :
    Streaming ({ d with enqueued := true }.send (.accepted jobId)) (l ++ .ended :: r) := by
  rw [List.countP_append, List.countP_cons_of_pos hx] at hxs
  refine .idle ?_ ?_
  · rw [Socket.send, if_pos hd.opened]
    refine ⟨hd.opened, hd.settled, hd.started, ?_⟩
    rw [if_pos rfl]
    exact ⟨jobId, [], by simp [hd.frames], fun _ h => absurd h List.not_mem_nil⟩
  · rw [List.countP_append, List.countP_cons_of_neg Bool.false_ne_true]
    omega

theorem finishing_step {l r : List StreamPos} {x : StreamPos}
    (hxs : ∀ y ∈ l ++ x :: r, y.finishes = true) {y : Socket × StreamPos} (hy : FinishesAt y) :
    Streaming y.1 (l ++ y.2 :: r) := by
  refine .finishing hy.1 fun y' hy' => ?_
  rcases List.mem_append.mp hy' with hy' | hy'
  · exact hxs y' (List.mem_append_left _ hy')
  · rcases List.mem_cons.mp hy' with rfl | hy'
    · exact hy.2
    · exact hxs y' (List.mem_append_right _ (List.mem_cons_of_mem _ hy'))

/-- The answer to an await. -/
theorem Streaming.answer {l r : List StreamPos} {x : StreamPos}
    {answer : (c : Cmd) → Except Exc (Reply c)} {c : Cmd} {k : Except Exc (Reply c) → Prog Unit}
    (h : Streaming d (l ++ x :: r)) (hx : x.prog e = .call c k)
    (ha : Accepting ⟨d, (l ++ x :: r).map (StreamPos.prog e)⟩ (.resume l.length answer)) :
    Streaming (d.afterAnswer e answer x).1 (l ++ (d.afterAnswer e answer x).2 :: r) := by
  have hgoes : goesOn c (answer c) = true := by
    simpa [Accepting, accepting, hx] using ha
  have hmem : x ∈ l ++ x :: r := List.mem_append_right _ List.mem_cons_self
  have hwaits : x.waits = true := by
    cases x <;> first | rfl | cases hx
  cases h with
  | idle hd hxs => exact absurd hwaits (List.countP_eq_zero.mp hxs x hmem)
  | starting hd hxs hstarts =>
    have hx' := hstarts x hmem hwaits
    cases x with
    | rate sub =>
      cases hx
      dsimp only [Socket.afterAnswer]
      revert hgoes
      generalize answer (.rateLimit _ _) = blocked
      match blocked with
      | .ok none => exact fun _ => starting_step hxs hwaits hd rfl rfl
      | .ok (some _) => exact fun hgoes => Bool.noConfusion hgoes
      | .error _ => exact fun hgoes => Bool.noConfusion hgoes
    | acquire sub =>
      cases hx
      dsimp only [Socket.afterAnswer]
      revert hgoes
      have hnow : Starting (d.connect sub.jobId) := ⟨hd.1, hd.2, hd.3, hd.4, hd.5⟩
      generalize answer (.acquire _ _ _ _) = granted
      match granted with
      | .ok true => exact fun _ => starting_step hxs hwaits hnow rfl rfl
      | .ok false => exact fun hgoes => Bool.noConfusion hgoes
      | .error _ => exact fun _ => starting_step hxs hwaits hnow rfl rfl
    | subscribe sub =>
      cases hx
      dsimp only [Socket.afterAnswer]
      revert hgoes
      generalize answer (.wsSubscribe _ _) = subscribed
      match subscribed with
      | .ok _ => exact fun _ => subscribed_step hxs hwaits hd hx' sub
      | .error _ => exact fun hgoes => Bool.noConfusion hgoes
    | group sub =>
      cases hx
      dsimp only [Socket.afterAnswer]
      revert hgoes
      generalize answer .xgroupCreate = created
      match created with
      | .ok _ =>
        exact fun _ => starting_step hxs hwaits ⟨hd.1, hd.2, hd.3, hd.4, hd.5⟩ rfl rfl
      | .error _ => exact fun hgoes => Bool.noConfusion hgoes
    | enqueue sub =>
      cases hx
      dsimp only [Socket.afterAnswer]
      revert hgoes
      generalize answer (.enqueue _ _) = enqueued
      match enqueued with
      | .ok _ => exact fun _ => accepted_step hxs hwaits hd _
      | .error _ => exact fun hgoes => Bool.noConfusion hgoes
    | _ => cases hx'
  | finishing hd hxs =>
    have hx' := hxs x hmem
    cases x with
    | release caller jobId => exact finishing_step hxs (hd.look caller)
    | quit caller =>
      exact finishing_step hxs ⟨hd.of_eq rfl rfl rfl rfl, caller.finishes_next⟩
    | closing caller =>
      refine finishing_step hxs ⟨?_, rfl⟩
      dsimp only [Socket.afterAnswer]
      split
      · exact hd.of_eq rfl rfl rfl rfl
      · exact hd
    | ended => cases hwaits
    | _ => cases hx'

theorem streaming_positions {s : LoopState Socket Cmd Reply Exc} (h : (socket e).Run Orderly s) :
    ∃ xs, s.tasks = xs.map (StreamPos.prog e) ∧ Streaming s.data xs := by
  refine socket_invariant h (.idle ⟨rfl, rfl, rfl, rfl⟩ rfl) ?_ ?_
  · exact fun d xs v d' p ha hI hv => hI.event hv ha
  · exact fun d l x r answer c k ha hI hx => hI.answer hx ha.1

/-- **The frame protocol of a stream.** When every turn is orderly, the frames are one `accepted`,
then progress frames, then at most one terminal frame and nothing after it; and `accepted` has been
sent once a started stream has nothing left to do. -/
theorem inOrder_of_orderly {s : LoopState Socket Cmd Reply Exc} (h : (socket e).Run Orderly s) :
    inOrder s.data.frames = true ∧
      (s.data.started = true → (∀ p ∈ s.tasks, p.Finished) → s.data.frames ≠ []) := by
  obtain ⟨xs, htasks, hI⟩ := streaming_positions h
  refine ⟨inOrder_of_streaming hI, fun hstarted hdone => ?_⟩
  cases hI with
  | idle hd _ =>
    have hframes := hd.frames
    rw [if_pos (hd.started.symm.trans hstarted)] at hframes
    obtain ⟨jobId, mid, hmid, -⟩ := hframes
    rw [hmid]
    exact List.cons_ne_nil _ _
  | starting _ hxs _ =>
    obtain ⟨x, hx, hwaits⟩ := List.countP_pos_iff.mp (hxs ▸ Nat.one_pos)
    rw [StreamPos.eq_ended (hdone (x.prog e) (htasks ▸ List.mem_map_of_mem hx))] at hwaits
    cases hwaits
  | finishing hd _ =>
    obtain ⟨jobId, mid, last, hframes, -⟩ := hd.frames
    rw [hframes]
    exact List.cons_ne_nil _ _

end

/-- The worker is heard after the reply to the enqueue. -/
def orderlyStream : List (Turn Cmd Reply Exc SocketEvent) :=
  [startSample, answerTo 0, answerTo 0, answerTo 0, answerTo 0,
    .event (.worker (some (.status .running))), .event (.worker (some (.stdout (str "1")))),
    .event (.worker (some (.done (some 0) .completed 12 false false))), answerTo 3, answerTo 3]

theorem inOrder_of_orderly_sample :
    (sampleStream orderlyStream).data.frames.length = 4 ∧
      inOrder (sampleStream orderlyStream).data.frames = true := by
  have htest (s : LoopState Socket Cmd Reply Exc) (a : Turn Cmd Reply Exc SocketEvent)
      (h : (accepting s a && orderly s a) = true) : Orderly s a := Bool.and_eq_true_iff.mp h
  exact ⟨by rfl, (inOrder_of_orderly (Loop.run_of_runs htest .start orderlyStream (by rfl))).1⟩

/-- The worker takes the job and publishes its status before the API server gets the reply to the
enqueue. -/
def earlyStatus : List (Turn Cmd Reply Exc SocketEvent) :=
  [startSample, answerTo 0, answerTo 0, answerTo 0, .event (.worker (some (.status .running))),
    answerTo 0]

/-- The first frame is then the status, and `accepted` comes second. -/
theorem status_before_accepted :
    ¬ ∀ s, (socket sampleEndpoint).Run Accepting s → inOrder s.data.frames = true := by
  intro h
  have hrun : (socket sampleEndpoint).Run Accepting (sampleStream earlyStatus) :=
    Loop.run_of_runs (fun _ _ h => h) .start earlyStatus (by rfl)
  have hframes : (sampleStream earlyStatus).data.frames =
      [.status .running, .accepted sampleId] := by rfl
  have horder := h _ hrun
  rw [hframes] at horder
  exact Bool.noConfusion horder

end CodeInterpreter.Api
