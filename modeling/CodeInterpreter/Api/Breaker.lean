import CodeInterpreter.Async.Machine
import CodeInterpreter.Types
import Mathlib.Tactic.Linarith

/-!
# The circuit breaker

`CircuitBreaker` of `services/redis.ts`. A call of `run` has two parts that are not interrupted: the
test of the state up to the start of `fn`, and the bookkeeping once `fn` has settled. Between the
two other calls run; `fn` may settle at any time, in any order.

One call after the other, the breaker follows a closed rule over the past calls. Overlapping calls
are the events of a machine, which logs what was started, rejected, settled and opened. Clock
readings are rational numbers.

## Main definitions

* `CircuitBreaker.enter`, `CircuitBreaker.onSuccess`, `CircuitBreaker.onFailure`,
  `CircuitBreaker.run`.
* `afterCalls`: a sequence of calls that do not overlap.
* `Breaker`, `breaker`: overlapping calls.
* `SingleProbe`, `StaysOpen`: what the log of overlapping calls may show.

## Main results

* `run_circuitOpen_iff`: the sequential rule.
* `single_probe_of_probeUndisturbed`, `stays_open_of_steadyOpen`: when overlapping calls keep to
  the two rules of an open breaker.
-/

namespace CodeInterpreter.Api

open Async

/-! ### One call -/

/-- Possible breaker states. -/
inductive BreakerState
  | closed
  | opened
  | halfOpen
  deriving DecidableEq

/-- The parameters of a breaker. -/
structure BreakerOptions where
  name : Str
  threshold : ℚ := 5
  cooldownMs : ℚ := 5000

/-- A minimal circuit breaker. -/
structure CircuitBreaker where
  state : BreakerState := .closed
  failures : ℕ := 0
  openedAt : ℚ := 0
  deriving DecidableEq

/-- Thrown when a call is rejected because the breaker is open. -/
structure CircuitOpenError where
  name : Str
  deriving DecidableEq

/-- The message of the error. -/
def CircuitOpenError.message (e : CircuitOpenError) : Str :=
  str "circuit '" ++ e.name ++ str "' is open"

/-- What a call of `run` ends with: it was rejected without a call of `fn`, or it passes on how
`fn` settled. -/
inductive Answer (ε α : Type)
  | circuitOpen (e : CircuitOpenError)
  | settled (outcome : Except ε α)

/-- A call of `run`, with the readings of the clock when it is made and when `fn` has settled. -/
structure Call (ε α : Type) where
  start : ℚ
  outcome : Except ε α
  stop : ℚ

namespace CircuitBreaker

variable (o : BreakerOptions) (b : CircuitBreaker)

/-- `run` up to the call of `fn`. -/
def enter (now : ℚ) : Except CircuitOpenError CircuitBreaker :=
  if b.state = .opened then
    if now - b.openedAt ≥ o.cooldownMs then .ok { b with state := .halfOpen }
    else .error ⟨o.name⟩
  else .ok b

/-- `onSuccess`. -/
def onSuccess : CircuitBreaker := { b with failures := 0, state := .closed }

/-- `onFailure`. -/
def onFailure (now : ℚ) : CircuitBreaker :=
  if o.threshold ≤ (b.failures + 1 : ℕ) then
    { state := .opened, failures := b.failures + 1, openedAt := now }
  else { b with failures := b.failures + 1 }

/-- `run` after `fn` has settled. -/
def settle {ε α : Type} (now : ℚ) : Except ε α → CircuitBreaker
  | .ok _ => b.onSuccess
  | .error _ => b.onFailure o now

/-- `run`, when no other call is made meanwhile. -/
def run {ε α : Type} (c : Call ε α) : CircuitBreaker × Answer ε α :=
  match b.enter o c.start with
  | .error e => (b, .circuitOpen e)
  | .ok b' => (b'.settle o c.stop c.outcome, .settled c.outcome)

end CircuitBreaker

section

variable {o : BreakerOptions} {b : CircuitBreaker} {now : ℚ}

/-- What `run` does before it calls `fn`: it rejects, it makes a probe, or it passes. -/
theorem enter_cases (o : BreakerOptions) (b : CircuitBreaker) (now : ℚ) :
    (b.state = .opened ∧ now - b.openedAt < o.cooldownMs ∧ b.enter o now = .error ⟨o.name⟩) ∨
    (b.state = .opened ∧ o.cooldownMs ≤ now - b.openedAt ∧
      b.enter o now = .ok { b with state := .halfOpen }) ∨
    (b.state ≠ .opened ∧ b.enter o now = .ok b) := by
  by_cases hstate : b.state = .opened
  · by_cases hnow : o.cooldownMs ≤ now - b.openedAt
    · exact .inr (.inl ⟨hstate, hnow, by simp [CircuitBreaker.enter, hstate, hnow]⟩)
    · exact .inl ⟨hstate, not_le.mp hnow, by simp [CircuitBreaker.enter, hstate, hnow]⟩
  · exact .inr (.inr ⟨hstate, by simp [CircuitBreaker.enter, hstate]⟩)

@[simp] theorem onSuccess_state : b.onSuccess.state = .closed := rfl

@[simp] theorem onSuccess_failures : b.onSuccess.failures = 0 := rfl

theorem onFailure_of_le (h : o.threshold ≤ (b.failures + 1 : ℕ)) :
    b.onFailure o now = ⟨.opened, b.failures + 1, now⟩ := if_pos h

theorem onFailure_of_lt (h : ¬ o.threshold ≤ (b.failures + 1 : ℕ)) :
    b.onFailure o now = { b with failures := b.failures + 1 } := if_neg h

end

/-! ### Calls that do not overlap -/

section

variable {ε α : Type}

/-- The call failed, once `fn` was invoked. -/
def Call.failed (c : Call ε α) : Bool := !c.outcome.isOk

/-- A further call: the breaker, and the calls that invoked `fn`, the newest one first. -/
def Call.next (o : BreakerOptions) (x : CircuitBreaker × List (Call ε α)) (c : Call ε α) :
    CircuitBreaker × List (Call ε α) :=
  match x.1.run o c with
  | (b, .circuitOpen _) => (b, x.2)
  | (b, .settled _) => (b, c :: x.2)

/-- A new breaker after a sequence of calls, the first one first. -/
def afterCalls (o : BreakerOptions) (calls : List (Call ε α)) :
    CircuitBreaker × List (Call ε α) :=
  calls.foldl (Call.next o) ({}, [])

/-- Of the calls that invoked `fn`, the newest one first, those since the last success. -/
def sinceSuccess (invoked : List (Call ε α)) : List (Call ε α) := invoked.takeWhile Call.failed

/-- The fields of the breaker encode the calls since the last success. -/
structure Encodes (o : BreakerOptions) (b : CircuitBreaker) (failed : List (Call ε α)) : Prop where
  failures : b.failures = failed.length
  settled : b.state ≠ .halfOpen
  opened : b.state = .opened ↔ failed ≠ [] ∧ o.threshold ≤ failed.length
  openedAt : ∀ f ∈ failed.head?, b.state = .opened → b.openedAt = f.stop

variable {o : BreakerOptions} {b : CircuitBreaker} {failed : List (Call ε α)}

/-- A success forgets the failures. -/
theorem Encodes.onSuccess : Encodes o b.onSuccess ([] : List (Call ε α)) where
  failures := rfl
  settled := by simp
  opened := by simp
  openedAt := by simp

/-- A failure is counted, and opens the breaker from the threshold on. -/
theorem Encodes.onFailure {c : Call ε α} (hfailures : b.failures = failed.length)
    (hstate : b.state = .closed ∨ o.threshold ≤ failed.length) :
    Encodes o (b.onFailure o c.stop) (c :: failed) := by
  by_cases hle : o.threshold ≤ (b.failures + 1 : ℕ)
  · rw [onFailure_of_le hle]
    rw [hfailures] at hle
    exact ⟨by simp [hfailures], by simp, by simpa using hle, by simp⟩
  · rw [onFailure_of_lt hle]
    rw [hfailures] at hle
    have hclosed : b.state = .closed := by
      refine hstate.resolve_right fun h => hle (h.trans ?_)
      exact_mod_cast Nat.le_succ _
    exact ⟨by simp [hfailures], by simp [hclosed], by simpa [hclosed] using hle, by simp [hclosed]⟩

theorem sinceSuccess_cons (c : Call ε α) (l : List (Call ε α)) :
    sinceSuccess (c :: l) = if c.failed then c :: sinceSuccess l else [] := by
  simp [sinceSuccess, List.takeWhile_cons]

/-- One call keeps the encoding. -/
theorem Encodes.next {x : CircuitBreaker × List (Call ε α)} (c : Call ε α)
    (h : Encodes o x.1 (sinceSuccess x.2)) :
    Encodes o (Call.next o x c).1 (sinceSuccess (Call.next o x c).2) := by
  obtain ⟨b, l⟩ := x
  have hsettle : ∀ b' : CircuitBreaker, b'.failures = (sinceSuccess l).length →
      (b'.state = .closed ∨ o.threshold ≤ (sinceSuccess l).length) →
      Encodes o (b'.settle o c.stop c.outcome) (sinceSuccess (c :: l)) := by
    intro b' hfailures hstate
    rw [sinceSuccess_cons]
    cases houtcome : c.outcome with
    | ok a => simpa [Call.failed, houtcome, Except.isOk, Except.toBool, CircuitBreaker.settle]
        using Encodes.onSuccess
    | error e => simpa [Call.failed, houtcome, Except.isOk, Except.toBool, CircuitBreaker.settle]
        using Encodes.onFailure hfailures hstate
  rcases enter_cases o b c.start with ⟨-, -, henter⟩ | ⟨hstate, -, henter⟩ | ⟨hstate, henter⟩
  · simpa only [Call.next, CircuitBreaker.run, henter] using h
  · have hprobe := hsettle { b with state := .halfOpen } h.failures (.inr (h.opened.mp hstate).2)
    simpa only [Call.next, CircuitBreaker.run, henter] using hprobe
  · have hclosed : b.state = .closed := by
      cases hb : b.state with
      | closed => rfl
      | opened => exact absurd hb hstate
      | halfOpen => exact absurd hb h.settled
    simpa only [Call.next, CircuitBreaker.run, henter] using hsettle b h.failures (.inl hclosed)

/-- After every sequence of calls the breaker encodes the calls since the last success. -/
theorem encodes_afterCalls (o : BreakerOptions) (calls : List (Call ε α)) :
    Encodes o (afterCalls o calls).1 (sinceSuccess (afterCalls o calls).2) := by
  have hfold : ∀ x : CircuitBreaker × List (Call ε α), Encodes o x.1 (sinceSuccess x.2) →
      Encodes o (calls.foldl (Call.next o) x).1
        (sinceSuccess (calls.foldl (Call.next o) x).2) := by
    induction calls with
    | nil => exact fun x h => h
    | cons c calls ih => exact fun x h => ih _ (h.next c)
  exact hfold _ ⟨rfl, by simp, by simp [sinceSuccess], by simp⟩

/-- The rule as the two outcomes of a call. -/
theorem run_of_encodes {failed : List (Call ε α)} (h : Encodes o b failed) (c : Call ε α) :
    ((o.threshold ≤ failed.length ∧ ∃ f ∈ failed.head?, c.start - f.stop < o.cooldownMs) ∧
      (b.run o c).2 = .circuitOpen ⟨o.name⟩) ∨
    (¬ (o.threshold ≤ failed.length ∧ ∃ f ∈ failed.head?, c.start - f.stop < o.cooldownMs) ∧
      (b.run o c).2 = .settled c.outcome) := by
  rcases enter_cases o b c.start with ⟨hopened, hlt, henter⟩ | ⟨hopened, hle, henter⟩ |
    ⟨hne, henter⟩
  · left
    obtain ⟨hfailed, hthreshold⟩ := h.opened.mp hopened
    obtain ⟨f, rest, rfl⟩ := List.exists_cons_of_ne_nil hfailed
    rw [h.openedAt f rfl hopened] at hlt
    exact ⟨⟨hthreshold, f, rfl, hlt⟩, by simp only [CircuitBreaker.run, henter]⟩
  · right
    refine ⟨?_, by simp only [CircuitBreaker.run, henter]⟩
    rintro ⟨-, f, hf, hlt⟩
    rw [h.openedAt f hf hopened] at hle
    exact absurd hlt (not_lt.mpr hle)
  · right
    refine ⟨?_, by simp only [CircuitBreaker.run, henter]⟩
    rintro ⟨hthreshold, f, hf, -⟩
    exact hne (h.opened.mpr ⟨fun hnil => by simp [hnil] at hf, hthreshold⟩)

/-- **The sequential rule.** After a sequence of calls, a further one is rejected without a call of
`fn` exactly when the calls that invoked `fn` since the last success, all of them failures, reach
the threshold and the newest of them failed less than the cooldown ago; otherwise it invokes `fn`
and passes on its outcome. -/
theorem run_circuitOpen_iff (o : BreakerOptions) (calls : List (Call ε α)) (c : Call ε α) :
    let failed := sinceSuccess (afterCalls o calls).2
    let rejects := o.threshold ≤ failed.length ∧
      ∃ f ∈ failed.head?, c.start - f.stop < o.cooldownMs
    (((afterCalls o calls).1.run o c).2 = .circuitOpen ⟨o.name⟩ ↔ rejects) ∧
      (¬ rejects → ((afterCalls o calls).1.run o c).2 = .settled c.outcome) := by
  intro failed rejects
  rcases run_of_encodes (encodes_afterCalls o calls) c with ⟨hrejects, hrun⟩ | ⟨hrejects, hrun⟩
  · exact ⟨iff_of_true hrun hrejects, fun h => absurd hrejects h⟩
  · exact ⟨iff_of_false (by simp [hrun]) hrejects, fun _ => hrun⟩

end

/-! ### Calls that overlap -/

/-- What happens next: a call of `run`, or the rest of one whose `fn` has settled. -/
inductive BreakerEvent
  | call (now : ℚ)
  | settle (id : ℕ) (success : Bool) (now : ℚ)

/-- What happened: `fn` was started, by a call that found the breaker open or not; a call was
rejected; a started call settled; the breaker opened. -/
inductive BreakerLog
  | started (id : ℕ) (probe : Bool) (now : ℚ)
  | rejected (e : CircuitOpenError) (now : ℚ)
  | settled (id : ℕ) (success : Bool)
  | opened (now : ℚ)
  deriving DecidableEq

/-- The breaker with the calls in flight. The clock is the last reading, the log has the newest
entry first; both are ghosts. -/
structure Breaker where
  breaker : CircuitBreaker := {}
  inFlight : List ℕ := []
  next : ℕ := 0
  clock : Option ℚ := none
  log : List BreakerLog := []
  deriving DecidableEq

namespace Breaker

variable (o : BreakerOptions) (s : Breaker)

/-- A call of `run`. -/
def call (now : ℚ) : Breaker :=
  match s.breaker.enter o now with
  | .error e => { s with clock := some now, log := .rejected e now :: s.log }
  | .ok b =>
    { breaker := b
      inFlight := s.next :: s.inFlight
      next := s.next + 1
      clock := some now
      log := .started s.next (s.breaker.state = .opened) now :: s.log }

/-- The call `id` goes on after its `fn` has fulfilled. -/
def succeed (id : ℕ) (now : ℚ) : Breaker :=
  { s with
    breaker := s.breaker.onSuccess
    inFlight := s.inFlight.filter (· ≠ id)
    clock := some now
    log := .settled id true :: s.log }

/-- The call `id` goes on after its `fn` has rejected. -/
def fail (id : ℕ) (now : ℚ) : Breaker :=
  { s with
    breaker := s.breaker.onFailure o now
    inFlight := s.inFlight.filter (· ≠ id)
    clock := some now
    log :=
      if o.threshold ≤ (s.breaker.failures + 1 : ℕ) then
        .opened now :: .settled id false :: s.log
      else .settled id false :: s.log }

/-- One event; only a call in flight settles. -/
def step : BreakerEvent → Option Breaker
  | .call now => some (s.call o now)
  | .settle id success now =>
    if id ∈ s.inFlight then some (if success then s.succeed id now else s.fail o id now) else none

end Breaker

/-- The breaker with its overlapping calls, as a machine. -/
def breaker (o : BreakerOptions) : Machine Breaker BreakerEvent where
  init := {}
  step := Breaker.step o

/-- The probes that have been started and have not settled. -/
def probesOf : List BreakerLog → List ℕ
  | [] => []
  | .started id true _ :: log => id :: probesOf log
  | .settled id _ :: log => (probesOf log).filter (· ≠ id)
  | _ :: log => probesOf log

/-- No `fn` was started while a probe had not settled. -/
def SingleProbe : List BreakerLog → Prop
  | [] => True
  | .started _ _ _ :: log => probesOf log = [] ∧ SingleProbe log
  | _ :: log => SingleProbe log

instance decidableSingleProbe : DecidablePred SingleProbe
  | [] => .isTrue trivial
  | .started _ _ _ :: log => @instDecidableAnd _ _ _ (decidableSingleProbe log)
  | .rejected _ _ :: log | .settled _ _ :: log | .opened _ :: log =>
    decidableSingleProbe log

/-- The clock readings at which the breaker opened. -/
def openings (log : List BreakerLog) : List ℚ :=
  log.filterMap fun
    | .opened now => some now
    | _ => none

/-- No `fn` was started in the cooldown after an opening. -/
def StaysOpen (o : BreakerOptions) : List BreakerLog → Prop
  | [] => True
  | .started _ _ now :: log =>
    (∀ T ∈ openings log, ¬ (T ≤ now ∧ now < T + o.cooldownMs)) ∧ StaysOpen o log
  | _ :: log => StaysOpen o log

instance decidableStaysOpen (o : BreakerOptions) : DecidablePred (StaysOpen o)
  | [] => .isTrue trivial
  | .started _ _ _ :: log => @instDecidableAnd _ _ _ (decidableStaysOpen o log)
  | .rejected _ _ :: log | .settled _ _ :: log | .opened _ :: log => decidableStaysOpen o log

/-! ### A single probe -/

/-- While a probe is in flight, no call is made to the half-open breaker or, when another failure
has opened it again, after its cooldown, and no other call succeeds. -/
def ProbeUndisturbed (o : BreakerOptions) (s : Breaker) : BreakerEvent → Prop
  | .call now => probesOf s.log ≠ [] → s.breaker.state ≠ .halfOpen ∧
      (s.breaker.state = .opened → now < s.breaker.openedAt + o.cooldownMs)
  | .settle id success _ => success = true → ∀ p ∈ probesOf s.log, p = id

instance (o : BreakerOptions) (s : Breaker) : DecidablePred (ProbeUndisturbed o s)
  | .call _ => inferInstanceAs (Decidable (_ → _ ∧ (_ → _)))
  | .settle _ _ _ => inferInstanceAs (Decidable (_ → ∀ p ∈ _, _))

section

variable {o : BreakerOptions} {s s' : Breaker} {v : BreakerEvent} {now : ℚ} {id : ℕ}

/-- What one event can do. -/
theorem step_cases (h : (breaker o).step s v = some s') :
    (∃ now, v = .call now ∧ s' = s.call o now) ∨
    (∃ id now, v = .settle id true now ∧ s' = s.succeed id now) ∨
    (∃ id now, v = .settle id false now ∧ s' = s.fail o id now) := by
  cases v with
  | call now => exact .inl ⟨now, rfl, (Option.some.inj h).symm⟩
  | settle id success now =>
    simp only [breaker, Breaker.step] at h
    split at h
    · cases success with
      | true => exact .inr (.inl ⟨id, now, rfl, (Option.some.inj h).symm⟩)
      | false => exact .inr (.inr ⟨id, now, rfl, (Option.some.inj h).symm⟩)
    · cases h

/-- While a probe is in flight the breaker is not closed, and no `fn` was started since. -/
structure Probing (s : Breaker) : Prop where
  notClosed : probesOf s.log ≠ [] → s.breaker.state ≠ .closed
  single : SingleProbe s.log

/-- A call that disturbs no probe. -/
theorem Probing.call (h : Probing s) (hv : ProbeUndisturbed o s (.call now)) :
    Probing (s.call o now) := by
  have hidle : s.breaker.state = .opened → o.cooldownMs ≤ now - s.breaker.openedAt →
      probesOf s.log = [] := by
    intro hstate hle
    by_contra hne
    have hlt := (hv hne).2 hstate
    linarith
  rcases enter_cases o s.breaker now with ⟨-, -, henter⟩ | ⟨hstate, hle, henter⟩ | ⟨hstate, henter⟩
  · simp only [Breaker.call, henter]
    exact ⟨h.notClosed, h.single⟩
  · simp only [Breaker.call, henter]
    exact ⟨by simp, hidle hstate hle, h.single⟩
  · -- a breaker that is not open lets every call pass
    have hnone : probesOf s.log = [] := by
      by_contra hne
      cases hs : s.breaker.state with
      | closed => exact h.notClosed hne hs
      | opened => exact hstate hs
      | halfOpen => exact (hv hne).1 hs
    simp only [Breaker.call, henter]
    exact ⟨by simp [probesOf, hstate, hnone], hnone, h.single⟩

theorem Probing.succeed (h : Probing s) (hv : ProbeUndisturbed o s (.settle id true now)) :
    Probing (s.succeed id now) := by
  have hnone : (probesOf s.log).filter (· ≠ id) = [] :=
    List.filter_eq_nil_iff.mpr fun p hp => by simp [hv rfl p hp]
  exact ⟨fun hne => absurd hnone hne, h.single⟩

theorem onFailure_state_ne_closed {b : CircuitBreaker} (h : b.state ≠ .closed) :
    (b.onFailure o now).state ≠ .closed := by
  by_cases hle : o.threshold ≤ (b.failures + 1 : ℕ)
  · simp [onFailure_of_le hle]
  · simpa [onFailure_of_lt hle] using h

theorem Probing.fail (h : Probing s) : Probing (s.fail o id now) := by
  have hkept : (probesOf s.log).filter (· ≠ id) ≠ [] →
      (s.breaker.onFailure o now).state ≠ .closed := by
    intro hne
    refine onFailure_state_ne_closed (h.notClosed fun hnil => hne ?_)
    rw [hnil, List.filter_nil]
  by_cases hle : o.threshold ≤ (s.breaker.failures + 1 : ℕ)
  · simp only [Breaker.fail, if_pos hle]
    exact ⟨hkept, h.single⟩
  · simp only [Breaker.fail, if_neg hle]
    exact ⟨hkept, h.single⟩

/-- **A single probe.** In every run in which no probe is disturbed, every call that is made while
a probe has not settled is rejected. -/
theorem single_probe_of_probeUndisturbed (o : BreakerOptions) (s : Breaker)
    (h : (breaker o).Run (ProbeUndisturbed o) s) : SingleProbe s.log := by
  have hprobing : Probing s := by
    refine h.invariant ⟨by simp [breaker, probesOf], trivial⟩ ?_
    intro s v s' hs hv hstep
    rcases step_cases hstep with ⟨now, rfl, rfl⟩ | ⟨id, now, rfl, rfl⟩ | ⟨id, now, rfl, rfl⟩
    · exact hs.call hv
    · exact hs.succeed hv
    · exact hs.fail
  exact hprobing.single

/-- A breaker that opens at the first failure. -/
def quickOptions : BreakerOptions := { name := str "t", threshold := 1, cooldownMs := 500 }

/-- A probe, and a late failure that opens the breaker again: the call that follows is rejected. -/
def undisturbedRun : List BreakerEvent :=
  [.call 0, .call 0, .settle 0 false 0, .call 600, .settle 1 false 700, .call 800,
    .settle 2 true 900]

/-- Two calls after the cooldown. -/
def doubleProbe : List BreakerEvent := [.call 0, .settle 0 false 0, .call 600, .call 600]

/-- The state after a list of events from the start; it is the start if one is not possible. -/
def playEvents (o : BreakerOptions) (vs : List BreakerEvent) : Breaker :=
  ((breaker o).play (fun _ _ => true) (breaker o).init vs).getD {}

theorem single_probe_undisturbedRun :
    ((playEvents quickOptions undisturbedRun).log).length = 9 ∧
      SingleProbe (playEvents quickOptions undisturbedRun).log :=
  ⟨by decide +kernel, single_probe_of_probeUndisturbed quickOptions _
    (Machine.run_of_play (fun _ _ => of_decide_eq_true) .start undisturbedRun
      (by decide +kernel))⟩

theorem not_single_probe :
    ¬ ∀ (o : BreakerOptions) (s : Breaker), (breaker o).Reachable s → SingleProbe s.log := by
  intro h
  have hlog := h quickOptions (playEvents quickOptions doubleProbe)
    (Machine.reachable_of_play doubleProbe (by decide +kernel))
  revert hlog
  decide +kernel

/-! ### Open for the cooldown -/

/-- The clock does not go back, and no call succeeds while the breaker is open, before its cooldown
is over. -/
def SteadyOpen (o : BreakerOptions) (s : Breaker) : BreakerEvent → Prop
  | .call now => ∀ t ∈ s.clock, t ≤ now
  | .settle _ success now => (∀ t ∈ s.clock, t ≤ now) ∧
      (success = true → s.breaker.state = .opened → s.breaker.openedAt + o.cooldownMs ≤ now)

instance (o : BreakerOptions) (s : Breaker) : DecidablePred (SteadyOpen o s)
  | .call _ => inferInstanceAs (Decidable (∀ t ∈ _, _))
  | .settle _ _ _ => inferInstanceAs (Decidable ((∀ t ∈ _, _) ∧ (_ → _ → _)))

/-- At the last reading of the clock, the breaker is open since the opening `T` or a later one, or
the cooldown after `T` is over. -/
def Cooling (o : BreakerOptions) (b : CircuitBreaker) (clock T : ℚ) : Prop :=
  T ≤ clock ∧ ((b.state = .opened ∧ T ≤ b.openedAt) ∨ T + o.cooldownMs ≤ clock)

/-- The invariant of a steady breaker. -/
structure Steady (o : BreakerOptions) (s : Breaker) : Prop where
  cooling : ∀ T ∈ openings s.log, ∃ t ∈ s.clock, Cooling o s.breaker t T
  staysOpen : StaysOpen o s.log

variable {b b' : CircuitBreaker} {t T : ℚ}

/-- An open breaker that lets go of its opening does so after the cooldown. -/
theorem Cooling.later (h : Cooling o b t T) (ht : t ≤ now)
    (hb : b.state = .opened → (b'.state = .opened ∧ b.openedAt ≤ b'.openedAt) ∨
      b.openedAt + o.cooldownMs ≤ now) : Cooling o b' now T := by
  refine ⟨h.1.trans ht, ?_⟩
  rcases h.2 with ⟨hstate, hT⟩ | hover
  · rcases hb hstate with ⟨hstate', hle⟩ | hover
    · exact .inl ⟨hstate', hT.trans hle⟩
    · exact .inr (by linarith)
  · exact .inr (hover.trans ht)

theorem Steady.cooling_later (h : Steady o s) (hclock : ∀ t ∈ s.clock, t ≤ now)
    (hb : s.breaker.state = .opened → (b'.state = .opened ∧ s.breaker.openedAt ≤ b'.openedAt) ∨
      s.breaker.openedAt + o.cooldownMs ≤ now) (hT : T ∈ openings s.log) : Cooling o b' now T := by
  obtain ⟨t, ht, hcooling⟩ := h.cooling T hT
  exact hcooling.later (hclock t ht) hb

theorem Steady.call (h : Steady o s) (hclock : ∀ t ∈ s.clock, t ≤ now) :
    Steady o (s.call o now) := by
  rcases enter_cases o s.breaker now with ⟨hstate, -, henter⟩ | ⟨hstate, hle, henter⟩ |
    ⟨hstate, henter⟩
  · simp only [Breaker.call, henter]
    exact ⟨fun T hT => ⟨now, rfl, h.cooling_later hclock (fun _ => .inl ⟨hstate, le_rfl⟩) hT⟩,
      h.staysOpen⟩
  · have hover : ∀ T ∈ openings s.log, Cooling o { s.breaker with state := .halfOpen } now T :=
      fun T hT => h.cooling_later hclock (fun _ => .inr (by linarith)) hT
    simp only [Breaker.call, henter]
    refine ⟨fun T hT => ⟨now, rfl, hover T hT⟩, fun T hT hnow => ?_, h.staysOpen⟩
    have hlater := (hover T hT).2.resolve_left (by simp)
    linarith [hnow.2]
  · have hover : ∀ T ∈ openings s.log, Cooling o s.breaker now T :=
      fun T hT => h.cooling_later hclock (fun hs => absurd hs hstate) hT
    simp only [Breaker.call, henter]
    refine ⟨fun T hT => ⟨now, rfl, hover T hT⟩, fun T hT hnow => ?_, h.staysOpen⟩
    have hlater := (hover T hT).2.resolve_left fun hs => hstate hs.1
    linarith [hnow.2]

theorem Steady.succeed (h : Steady o s) (hv : SteadyOpen o s (.settle id true now)) :
    Steady o (s.succeed id now) :=
  ⟨fun _ hT => ⟨now, rfl, h.cooling_later hv.1 (fun hs => .inr (hv.2 rfl hs)) hT⟩, h.staysOpen⟩

theorem Steady.fail (h : Steady o s) (hclock : ∀ t ∈ s.clock, t ≤ now) :
    Steady o (s.fail o id now) := by
  by_cases hle : o.threshold ≤ (s.breaker.failures + 1 : ℕ)
  · simp only [Breaker.fail, if_pos hle, onFailure_of_le hle]
    refine ⟨fun T hT => ⟨now, rfl, ?_⟩, h.staysOpen⟩
    rcases List.mem_cons.mp hT with rfl | hT
    · exact ⟨le_rfl, .inl ⟨rfl, le_rfl⟩⟩
    · obtain ⟨t, ht, hcooling⟩ := h.cooling T hT
      exact ⟨hcooling.1.trans (hclock t ht), .inl ⟨rfl, hcooling.1.trans (hclock t ht)⟩⟩
  · simp only [Breaker.fail, if_neg hle, onFailure_of_lt hle]
    exact ⟨fun T hT => ⟨now, rfl, h.cooling_later hclock (fun hs => .inl ⟨hs, le_rfl⟩) hT⟩,
      h.staysOpen⟩

/-- **Open for the cooldown.** In every run in which the clock does not go back and no call succeeds
in the cooldown of an open breaker, no `fn` is started in the cooldown after an opening. -/
theorem stays_open_of_steadyOpen (o : BreakerOptions) (s : Breaker)
    (h : (breaker o).Run (SteadyOpen o) s) : StaysOpen o s.log := by
  have hsteady : Steady o s := by
    refine h.invariant ⟨by simp [breaker, openings], trivial⟩ ?_
    intro s v s' hs hv hstep
    rcases step_cases hstep with ⟨now, rfl, rfl⟩ | ⟨id, now, rfl, rfl⟩ | ⟨id, now, rfl, rfl⟩
    · exact hs.call hv
    · exact hs.succeed hv
    · exact hs.fail hv.1
  exact hsteady.staysOpen

/-- A late failure extends the open state; the next call is rejected, and a late success comes after
the cooldown. -/
def steadyRun : List BreakerEvent :=
  [.call 0, .call 0, .call 0, .settle 0 false 0, .settle 1 false 100, .call 550,
    .settle 2 true 600, .call 600]

/-- A call that was started before the breaker opened succeeds after it. -/
def lateSuccess : List BreakerEvent :=
  [.call 0, .call 0, .settle 0 false 10, .settle 1 true 20, .call 30]

theorem stays_open_steadyRun :
    openings (playEvents quickOptions steadyRun).log = [100, 0] ∧
      StaysOpen quickOptions (playEvents quickOptions steadyRun).log :=
  ⟨by decide +kernel, stays_open_of_steadyOpen quickOptions _
    (Machine.run_of_play (fun _ _ => of_decide_eq_true) .start steadyRun (by decide +kernel))⟩

theorem not_stays_open :
    ¬ ∀ (o : BreakerOptions) (s : Breaker), (breaker o).Reachable s → StaysOpen o s.log := by
  intro h
  have hlog := h quickOptions (playEvents quickOptions lateSuccess)
    (Machine.reachable_of_play lateSuccess (by decide +kernel))
  revert hlog
  decide +kernel

end

end CodeInterpreter.Api
