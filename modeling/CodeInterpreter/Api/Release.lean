import CodeInterpreter.Api.Stream

/-!
# The resources of a connection

A connection holds a subscriber of its own, a lifetime timer and one unit of the gauge of active
connections. `cleanup` gives them back once, looking at the timer and the subscriber at one moment;
`onStart` goes on creating them whatever `cleanup` has done meanwhile. So they are all given back
exactly when `onStart` creates nothing after `cleanup` has looked.

## Main definitions

* `Timely`: the answer does not make `onStart` create something after `cleanup` has looked.
* `Released`: the invariant of a connection all of whose answers are timely.

## Main results

* `released_of_timely`: what a closed connection has given back.
* `subscriber_leaks`: a connection that is closed while its slot is requested keeps a subscriber.
-/

namespace CodeInterpreter.Api

open Async

variable {e : Endpoint} {d : Socket} {z q : ℕ}

/-- One for a handler that awaits the release of the slot. -/
def StreamPos.releasing : StreamPos → ℕ
  | .release _ _ => 1
  | _ => 0

/-- One for a handler that awaits the end of the subscriber. -/
def StreamPos.quitting : StreamPos → ℕ
  | .quit _ => 1
  | _ => 0

/-- The invariant, with the number of handlers in the two awaits of `cleanup`: at most one call of
`cleanup` gets past the flag, it looks once and decrements the gauge once, and until then the
variables hold the subscriber and the timer that exist. -/
structure Released (d : Socket) (releasing quitting : ℕ) : Prop where
  cleanedUp : releasing + d.looked.toNat = d.conn.cleanedUp.toNat
  looked : quitting + d.decremented = d.looked.toNat
  subscriber : d.created = true → d.quit = true ∨ d.conn.subscriber = true
  dropped : d.conn.subscriber = true → d.decremented = 0
  timer : d.conn.lifetimeTimer = true → d.looked = false
  closed : d.readyState = .closed → d.conn.cleanedUp = true

/-- The invariant after a turn of one handler, with the numbers of the others. -/
def ReleasedAt (z q : ℕ) (x : Socket × StreamPos) : Prop :=
  Released x.1 (z + x.2.releasing) (q + x.2.quitting)

theorem Caller.releasing_next (caller : Caller) : caller.next.releasing = 0 := by
  cases caller <;> rfl

theorem Caller.quitting_next (caller : Caller) : caller.next.quitting = 0 := by
  cases caller <;> rfl

theorem Released.send (h : Released d z q) (frame : ServerFrame) : Released (d.send frame) z q := by
  unfold Socket.send
  split
  · exact ⟨h.1, h.2, h.3, h.4, h.5, h.6⟩
  · exact h

/-- The one call of `cleanup` that looks. -/
theorem Released.look (h : Released d (z + 1) q) (caller : Caller) :
    ReleasedAt z q (d.look caller) := by
  have hbound := Bool.toNat_le d.conn.cleanedUp
  have hcleanedUp := h.cleanedUp
  have hfresh : d.looked.toNat = 0 := by omega
  have hlooked := h.looked
  by_cases hs : d.conn.subscriber
  · rw [Socket.look, if_pos hs]
    refine ⟨?_, ?_, h.subscriber, fun _ => ?_, fun ht => Bool.noConfusion ht, h.closed⟩
    · simp only [StreamPos.releasing, Bool.toNat_true]
      omega
    · simp only [StreamPos.quitting, Bool.toNat_true]
      omega
    · exact h.dropped hs
  · rw [Socket.look, if_neg hs]
    refine ⟨?_, ?_, ?_, fun ht => Bool.noConfusion ht, fun ht => Bool.noConfusion ht, h.closed⟩
    · simp only [Socket.closeDown, caller.releasing_next, Bool.toNat_true]
      omega
    · simp only [Socket.closeDown, caller.quitting_next, Bool.toNat_true]
      omega
    · exact fun hc => .inl ((h.subscriber hc).resolve_right hs)

/-- Only the first call of `cleanup` does anything; the socket may just have been closed. -/
theorem Released.cleanup (h : Released d z q) (state : ReadyState) (caller : Caller) :
    ReleasedAt z q (Socket.cleanup { d with readyState := state } caller) := by
  have hcleanedUp := h.cleanedUp
  by_cases hc : d.conn.cleanedUp
  · rw [Socket.cleanup, if_pos hc]
    rw [hc] at hcleanedUp
    refine ⟨?_, ?_, h.subscriber, h.dropped, h.timer, fun _ => rfl⟩
    · rwa [caller.releasing_next]
    · rw [caller.quitting_next]
      exact h.looked
  · -- nobody has looked yet, and this call is about to
    have hnone : d.conn.cleanedUp.toNat = 0 := by simpa using hc
    have hnow : Released { d with
        readyState := state
        conn := { d.conn with cleanedUp := true } } (z + 1) q := by
      refine ⟨?_, h.looked, h.subscriber, h.dropped, h.timer, fun _ => rfl⟩
      simp only [Bool.toNat_true]
      omega
    rw [Socket.cleanup, if_neg hc]
    split
    · exact hnow
    · exact hnow.look caller

theorem Released.finish (h : Released d z q) (caller : Caller) :
    ReleasedAt z q (d.finish caller) := by
  by_cases hs : d.conn.settled
  · rw [Socket.finish, if_pos hs]
    exact ⟨h.1, h.2, h.3, h.4, h.5, h.6⟩
  · rw [Socket.finish, if_neg hs]
    have hnow : Released { d with conn := { d.conn with settled := true } } z q :=
      ⟨h.1, h.2, h.3, h.4, h.5, h.6⟩
    exact hnow.cleanup d.readyState caller

theorem Released.refuse (h : Released d z q) (caller : Caller) (title detail : Str) :
    ReleasedAt z q (d.refuse caller title detail) :=
  (h.send _).finish caller

/-- A subscriber that is created before `cleanup` looks is noticed. -/
theorem Released.connect (h : Released d z q) (hfresh : d.looked = false) (jobId : Str) :
    Released (d.connect jobId) z q := by
  have hlooked := h.looked
  rw [hfresh, Bool.toNat_false] at hlooked
  have hnone : d.decremented = 0 := by omega
  exact ⟨h.cleanedUp, h.looked, fun _ => .inr rfl, fun _ => hnone, h.timer, h.closed⟩

/-- A timer that is armed before `cleanup` looks is noticed. -/
theorem Released.subscribed (h : Released d z q) (hfresh : d.looked = false) (sub : Submission) :
    ReleasedAt z q (d.subscribed sub) := by
  unfold Socket.subscribed
  split
  · split <;> exact ⟨h.1, h.2, h.3, h.4, fun _ => hfresh, h.6⟩
  · exact ⟨h.1, h.2, h.3, h.4, fun _ => hfresh, h.6⟩

/-- The subscriber is quit and `cleanup` returns. -/
theorem Released.closeDown (h : Released d z (q + 1)) (caller : Caller) :
    ReleasedAt z q ({ d with quit := true }.closeDown, caller.next) := by
  refine ⟨?_, ?_, fun _ => .inl rfl, fun hs => Bool.noConfusion hs, h.timer, h.closed⟩
  · rw [caller.releasing_next]
    exact h.cleanedUp
  · have hlooked := h.looked
    rw [caller.quitting_next]
    simp only [Socket.closeDown]
    omega

/-! ### Turns -/

/-- The handler of an event. -/
theorem Released.event (h : Released d z q) {v : SocketEvent} {d' : Socket} {p : Prog Unit}
    (hv : d.event e v = some (d', p)) : ReleasedAt z q (d'.afterEvent e v) := by
  cases v with
  | message frame =>
    obtain ⟨_, hp⟩ := Option.ite_none_right_eq_some.mp hv
    obtain ⟨rfl, -⟩ := Prod.mk.inj (Option.some.inj hp)
    have hnow : Released { d with started := true } z q := ⟨h.1, h.2, h.3, h.4, h.5, h.6⟩
    cases frame with
    | notJson => exact hnow.refuse _ _ _
    | null => exact hnow
    | notStart => exact hnow.refuse _ _ _
    | invalid detail => exact hnow.refuse _ _ _
    | start sub => exact hnow
  | worker message =>
    obtain ⟨_, hp⟩ := Option.ite_none_right_eq_some.mp hv
    obtain ⟨rfl, -⟩ := Prod.mk.inj (Option.some.inj hp)
    cases message with
    | none => exact h
    | some message =>
      have hforward : ReleasedAt z q (if d.sendOk e then (d.send (forwarded message), .ended)
          else (d.send (forwarded message)).refuse .finish (str "Backpressure")
            (str "Client is too slow to consume output; closing the stream.")) := by
        split
        · exact h.send _
        · exact (h.send _).refuse _ _ _
      cases message with
      | done => exact (h.send _).finish _
      | stdout data => exact hforward
      | stderr data => exact hforward
      | status status => exact hforward
  | lifetime =>
    obtain ⟨_, hp⟩ := Option.ite_none_right_eq_some.mp hv
    obtain ⟨rfl, -⟩ := Prod.mk.inj (Option.some.inj hp)
    have hnow : Released { d with conn := { d.conn with lifetimeTimer := false } } z q :=
      ⟨h.1, h.2, h.3, h.4, fun ht => Bool.noConfusion ht, h.6⟩
    exact hnow.refuse _ _ _
  | closing =>
    obtain ⟨_, hp⟩ := Option.ite_none_right_eq_some.mp hv
    obtain ⟨rfl, -⟩ := Prod.mk.inj (Option.some.inj hp)
    exact ⟨h.1, h.2, h.3, h.4, h.5, fun hc => ReadyState.noConfusion hc⟩
  | close =>
    obtain ⟨_, hp⟩ := Option.ite_none_left_eq_some.mp hv
    obtain ⟨rfl, -⟩ := Prod.mk.inj (Option.some.inj hp)
    exact h.cleanup .closed .close
  | error =>
    obtain ⟨_, hp⟩ := Option.ite_none_left_eq_some.mp hv
    obtain ⟨rfl, -⟩ := Prod.mk.inj (Option.some.inj hp)
    exact h.finish _

/-- The answers after which `onStart` creates something: the subscriber once it has the slot, which
it also has when Redis fails, and the timer once it is subscribed. -/
def creates : (c : Cmd) → Except Exc (Reply c) → Bool
  | .acquire _ _ _ _, .ok granted => granted
  | .acquire _ _ _ _, .error _ => true
  | .wsSubscribe _ _, .ok _ => true
  | _, _ => false

/-- The answer does not make `onStart` create something after `cleanup` has looked at the timer and
the subscriber. -/
def timely (s : LoopState Socket Cmd Reply Exc) : Turn Cmd Reply Exc SocketEvent → Bool
  | .event _ => true
  | .resume i answer =>
    match s.tasks[i]? with
    | some (.call c _) => !(s.data.looked && creates c (answer c))
    | _ => true

/-- A turn with a timely answer. -/
def Timely (s : LoopState Socket Cmd Reply Exc) (a : Turn Cmd Reply Exc SocketEvent) : Prop :=
  timely s a = true

/-- The answer to an await. -/
theorem Released.answer {l r : List StreamPos} {x : StreamPos}
    {answer : (c : Cmd) → Except Exc (Reply c)} {c : Cmd} {k : Except Exc (Reply c) → Prog Unit}
    (h : Released d (z + x.releasing) (q + x.quitting)) (hx : x.prog e = .call c k)
    (ha : Timely ⟨d, (l ++ x :: r).map (StreamPos.prog e)⟩ (.resume l.length answer)) :
    ReleasedAt z q (d.afterAnswer e answer x) := by
  have hfresh : creates c (answer c) = true → d.looked = false := by
    intro hc
    simpa [Timely, timely, hx, hc] using ha
  cases x with
  | rate sub =>
    dsimp only [Socket.afterAnswer]
    split
    · exact h
    · exact Released.refuse h _ _ _
    · exact h
  | acquire sub =>
    cases hx
    dsimp only [Socket.afterAnswer]
    revert hfresh
    generalize answer (.acquire _ _ _ _) = granted
    match granted with
    | .ok true => exact fun hfresh => Released.connect h (hfresh rfl) _
    | .ok false => exact fun _ => Released.refuse h _ _ _
    | .error _ => exact fun hfresh => Released.connect h (hfresh rfl) _
  | subscribe sub =>
    cases hx
    dsimp only [Socket.afterAnswer]
    revert hfresh
    generalize answer (.wsSubscribe _ _) = subscribed
    match subscribed with
    | .ok _ => exact fun hfresh => Released.subscribed h (hfresh rfl) _
    | .error _ => exact fun _ => h
  | group sub =>
    dsimp only [Socket.afterAnswer]
    split <;> exact ⟨h.1, h.2, h.3, h.4, h.5, h.6⟩
  | enqueue sub =>
    have hnow : Released { d with enqueued := true } z q := ⟨h.1, h.2, h.3, h.4, h.5, h.6⟩
    dsimp only [Socket.afterAnswer]
    split
    · exact hnow.send _
    · exact h
  | caught ex => exact (Released.send h _).finish _
  | release caller jobId => exact Released.look h caller
  | quit caller => exact Released.closeDown h caller
  | closing caller =>
    dsimp only [Socket.afterAnswer]
    split
    · exact ⟨h.1, h.2, h.3, h.4, h.5, fun hc => ReadyState.noConfusion hc⟩
    · exact h
  | ended => cases hx

/-- The invariant of the runs with timely answers. -/
theorem released_positions {s : LoopState Socket Cmd Reply Exc} (h : (socket e).Run Timely s) :
    ∃ xs : List StreamPos, s.tasks = xs.map (StreamPos.prog e) ∧
      Released s.data (xs.map StreamPos.releasing).sum (xs.map StreamPos.quitting).sum := by
  have hsum (f : StreamPos → ℕ) (l r : List StreamPos) (x : StreamPos) :
      ((l ++ x :: r).map f).sum = ((l.map f).sum + (r.map f).sum) + f x := by
    simp only [List.map_append, List.map_cons, List.sum_append, List.sum_cons]
    omega
  refine socket_invariant (I := fun d xs => Released d (xs.map StreamPos.releasing).sum
    (xs.map StreamPos.quitting).sum) h ⟨rfl, rfl, ?_, ?_, ?_, ?_⟩ ?_ ?_
  · exact fun hc => Bool.noConfusion hc
  · exact fun _ => rfl
  · exact fun hc => Bool.noConfusion hc
  · exact fun hc => ReadyState.noConfusion hc
  · intro d xs v d' p _ hI hv
    have hnow := hI.event hv
    simpa [ReleasedAt] using hnow
  · intro d l x r answer c k ha hI hx
    rw [hsum, hsum] at hI
    rw [hsum, hsum]
    exact hI.answer hx ha

/-- What a connection has given back: the subscriber it created has been quit, no timer is armed,
and the gauge was decremented exactly once. -/
theorem released_of_timely {s : LoopState Socket Cmd Reply Exc} (h : (socket e).Run Timely s)
    (hclosed : s.data.readyState = .closed) (hdone : ∀ p ∈ s.tasks, p.Finished) :
    (s.data.created = true → s.data.quit = true) ∧ s.data.conn.lifetimeTimer = false ∧
      s.data.decremented = 1 := by
  obtain ⟨xs, htasks, hI⟩ := released_positions h
  have hended : ∀ x ∈ xs, x = .ended := fun x hx =>
    StreamPos.eq_ended (hdone (x.prog e) (htasks ▸ List.mem_map_of_mem hx))
  have hnone (f : StreamPos → ℕ) (hf : f .ended = 0) : (xs.map f).sum = 0 := by
    refine List.sum_eq_zero_iff_forall_eq_nat.mpr fun n hn => ?_
    obtain ⟨x, hx, rfl⟩ := List.mem_map.mp hn
    rw [hended x hx, hf]
  rw [hnone _ rfl, hnone _ rfl] at hI
  have hcleanedUp := hI.cleanedUp
  rw [hI.closed hclosed, Bool.toNat_true, Nat.zero_add] at hcleanedUp
  have hlooked := hI.looked
  rw [hcleanedUp, Nat.zero_add] at hlooked
  refine ⟨fun hc => ?_, ?_, hlooked⟩
  · refine (hI.subscriber hc).resolve_right fun hs => ?_
    rw [hI.dropped hs] at hlooked
    cases hlooked
  · by_contra ht
    rw [hI.timer (by simpa using ht)] at hcleanedUp
    cases hcleanedUp

/-- The job runs to its end, then the client closes the socket. -/
def orderlyTurns : List (Turn Cmd Reply Exc SocketEvent) :=
  [startSample, answerTo 0, answerTo 0, answerTo 0, answerTo 0,
    .event (.worker (some (.done (some 0) .completed 12 false false))), answerTo 1, answerTo 1,
    answerTo 1, .event .close]

theorem released_of_timely_sample :
    (sampleStream orderlyTurns).data.created = true ∧
      (sampleStream orderlyTurns).data.quit = true := by
  have hcreated : (sampleStream orderlyTurns).data.created = true := by rfl
  have hrun : (socket sampleEndpoint).Run Timely (sampleStream orderlyTurns) :=
    Loop.run_of_runs (fun _ _ h => h) .start orderlyTurns (by rfl)
  refine ⟨hcreated, (released_of_timely hrun (by rfl) ?_).1 hcreated⟩
  have htasks : (sampleStream orderlyTurns).tasks = [pure (), pure (), pure ()] := by rfl
  rw [htasks]
  simp [Program.Finished]

/-- The client closes the socket while the slot is requested. -/
def leakTurns : List (Turn Cmd Reply Exc SocketEvent) :=
  [startSample, answerTo 0, .event .close, answerTo 0, answerTo 0, answerTo 0]

/-- `cleanup` finds nothing to give back, and `onStart` goes on: the subscriber it creates is never
quit. -/
theorem subscriber_leaks :
    ¬ ∀ s, (socket sampleEndpoint).Reachable s → s.data.readyState = .closed →
      (∀ p ∈ s.tasks, p.Finished) →
      (s.data.created = true → s.data.quit = true) ∧ s.data.conn.lifetimeTimer = false ∧
        s.data.decremented = 1 := by
  intro h
  have hrun : (socket sampleEndpoint).Reachable (sampleStream leakTurns) :=
    Loop.reachable_run leakTurns (by rfl)
  have htasks : (sampleStream leakTurns).tasks = [pure (), pure ()] := by rfl
  have hquit := (h _ hrun (by rfl) (by rw [htasks]; simp [Program.Finished])).1 (by rfl)
  exact Bool.noConfusion hquit

end CodeInterpreter.Api
