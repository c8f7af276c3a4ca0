import Mathlib.Data.List.Basic
import Mathlib.Tactic.Common

/-!
# State machines

A machine with states `σ` takes a step for each event of type `V`, when the event is possible in
its state. A run restricted by `A : σ → V → Prop` takes only the steps whose event satisfies `A` in
the state it meets; the invariant rule may use this restriction.

## Main definitions

* `Async.Machine`, `Async.Machine.Run A`: the states of the runs all of whose events satisfy `A`.
* `Async.Machine.Reachable`: the states of all runs.
* `Async.Machine.play`: the run of a list of events.

## Main results

* `Async.Machine.Run.invariant`: the invariant rule.
* `Async.Machine.run_of_play`: a computed run whose events pass a test.
-/

namespace Async

/-- A machine with states `σ` and events `V`; `none` when an event is not possible. -/
structure Machine (σ V : Type) where
  init : σ
  step : σ → V → Option σ

namespace Machine

variable {σ V : Type} (M : Machine σ V)

/-- The states of the runs all of whose events satisfy `A` in the state they meet. -/
inductive Run (A : σ → V → Prop) : σ → Prop
  | start : Run A M.init
  | step {s s' : σ} {v : V} (h : Run A s) (hv : A s v) (hs : M.step s v = some s') : Run A s'

/-- The states of all runs. -/
def Reachable (s : σ) : Prop := M.Run (fun _ _ => True) s

/-- The state after a list of events, when each of them is possible and passes the test. -/
def play (test : σ → V → Bool) : σ → List V → Option σ
  | s, [] => some s
  | s, v :: vs => if test s v then (M.step s v).bind fun s' => play test s' vs else none

variable {M} {A : σ → V → Prop}

/-- **The invariant rule.** What holds initially and is kept by every step holds in all states. -/
theorem Run.invariant {I : σ → Prop} {s : σ} (h : M.Run A s) (hinit : I M.init)
    (hstep : ∀ s v s', I s → A s v → M.step s v = some s' → I s') : I s := by
  induction h with
  | start => exact hinit
  | step _ hv hs ih => exact hstep _ _ _ ih hv hs

theorem run_of_play {test : σ → V → Bool} (htest : ∀ s v, test s v = true → A s v) {s s' : σ}
    (hs : M.Run A s) (vs : List V) (h : M.play test s vs = some s') : M.Run A s' := by
  induction vs generalizing s with
  | nil =>
    cases h
    exact hs
  | cons v vs ih =>
    simp only [play] at h
    split at h
    · next hv =>
      obtain ⟨s₁, hs₁, hrest⟩ := Option.bind_eq_some_iff.mp h
      exact ih (.step hs (htest s v hv) hs₁) hrest
    · cases h

theorem reachable_of_play {s : σ} (vs : List V)
    (h : M.play (fun _ _ => true) M.init vs = some s) : M.Reachable s :=
  run_of_play (fun _ _ _ => trivial) .start vs h

end Machine

end Async
