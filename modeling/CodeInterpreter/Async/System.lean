import CodeInterpreter.Async.Program
import Mathlib.Algebra.BigOperators.Group.List.Basic
import Mathlib.Tactic.Abel

/-!
# Systems of asynchronous programs over a shared world

A *system* runs any number of programs over one shared world `σ`. Commands are atomic: a step of
the system answers the next command of one process. The answer is the command's own reply, or an
exception, and in the second case the command may or may not have taken effect, as when a
connection is lost before or after the server handled the request. A process may crash between
any two commands, requests arrive at any time and start new processes, a command may fork
processes, and the clock advances at any time.

Each process carries the trace of its own answered commands, and the state carries the history of
all of them. Both are ghosts: no step depends on them.

A *discipline* says, for each role, which commands a process of that role may issue after a given
trace. When every program keeps the discipline (a statement about single programs, proved with
`Async.Program.wp`), an invariant of the system only has to be preserved by commands issued within
the discipline.

## Main definitions

* `Async.System`, `Async.State`, `Async.Action`, `Async.System.step`.
* `Async.System.Run P`: a run all of whose steps satisfy `P`; `Async.System.Reachable`.
* `Async.System.run`: the same, computed from a list of actions.
* `Async.Discipline`, `Async.System.Kept`.

## Main results

* `Async.System.step_cases`: everything a step can do.
* `Async.System.Run.invariant`: the induction rule of runs.
* `Async.System.Reachable.history_invariant`: the same for properties of the world and the history.
* `Async.System.reachable_traced`: the trace of a process is part of the history.
* `Async.System.reachable_originates`: where the roles come from.
* `Async.System.Run.sum_traces`: a part of the world that each command changes by a fixed amount is
  the sum of these amounts over the traces.
* `Async.System.reachable_kept`: programs that keep a discipline keep it in every run.
* `Async.System.reachable_allowed`: so every command of the history was allowed.
-/

namespace Async

/-- A running program, with its role and the trace of the commands it had answered. -/
structure Process (C : Type) (R : C → Type) (E ι : Type) where
  role : ι
  trace : List (Event C R E)
  prog : Program C R E Unit

/-- An answered command as the history records it: when, by which role, and whether the command
took effect. -/
structure Occurrence (C : Type) (R : C → Type) (E ι : Type) where
  time : ℕ
  role : ι
  event : Event C R E
  applied : Bool

/-- A system of programs over a world `σ`. The oracle `O` supplies the replies that the world does
not determine, and `Q` is the type of the requests that start a program from outside. -/
structure System (σ C : Type) (R : C → Type) (E ι O Q : Type) where
  init : σ
  exec : ℕ → σ → (c : C) → O → σ × R c
  mayFail : C → Bool
  fork : ι → C → List (ι × Program C R E Unit)
  handler : Q → ι × Program C R E Unit
  admits : List Q → Q → Bool

/-- The state of a system: the clock, the world, the processes, the history of the answered
commands and the requests that have arrived, the last two newest first. -/
structure State (σ C : Type) (R : C → Type) (E ι Q : Type) where
  now : ℕ
  world : σ
  procs : List (Process C R E ι)
  hist : List (Occurrence C R E ι)
  arrivals : List Q

/-- How the next command of a process is answered: with its reply, with an exception although it
took effect or with an exception and no effect. -/
inductive Answer (E O : Type)
  | reply (o : O)
  | lost (e : E)
  | unheard (e : E) (o : O)

/-- What can happen next. -/
inductive Action (E O Q : Type)
  | arrive (q : Q)
  | answer (i : ℕ) (a : Answer E O)
  | crash (i : ℕ)
  | tick (d : ℕ)

variable {σ C : Type} {R : C → Type} {E ι O Q : Type}

/-- A process that has not had a command answered yet. -/
def Process.start (x : ι × Program C R E Unit) : Process C R E ι := ⟨x.1, [], x.2⟩

/-- The process after its command `c` was answered with `r`. -/
def Process.resume (p : Process C R E ι) (c : C) (k : Except E (R c) → Program C R E Unit)
    (r : Except E (R c)) : Process C R E ι := ⟨p.role, ⟨c, r⟩ :: p.trace, k r⟩

/-- The command that a process waits for. -/
def Process.next (p : Process C R E ι) : Option C :=
  match p.prog with
  | .call c _ => some c
  | _ => none

theorem Process.next_eq_some {p : Process C R E ι} {c : C} :
    p.next = some c ↔ ∃ k, p.prog = .call c k := by
  unfold Process.next
  split
  · rename_i c' k hk
    constructor
    · rintro ⟨rfl⟩
      exact ⟨k, hk⟩
    · rintro ⟨k', hk'⟩
      cases hk.symm.trans hk'
      rfl
  · rename_i hno
    constructor
    · intro h
      cases h
    · rintro ⟨k, hk⟩
      exact absurd hk (hno c k)

/-- The process whose next command an action answers, with that command. -/
def State.next (s : State σ C R E ι Q) : Action E O Q → Option (Process C R E ι × C)
  | .answer i _ => s.procs[i]?.bind fun p => p.next.map fun c => (p, c)
  | _ => none

namespace System

variable (S : System σ C R E ι O Q)

/-- The state before anything happened. -/
def start : State σ C R E ι Q := ⟨0, S.init, [], [], []⟩

/-- The world, the answer and whether the command took effect, for each way of answering. -/
def respond (now : ℕ) (w : σ) (c : C) : Answer E O → Option (σ × Except E (R c) × Bool)
  | .reply o => some ((S.exec now w c o).1, .ok (S.exec now w c o).2, true)
  | .lost e => if S.mayFail c then some (w, .error e, false) else none
  | .unheard e o => if S.mayFail c then some ((S.exec now w c o).1, .error e, true) else none

/-- The processes forked by a command that was answered with its reply. -/
def forked (role : ι) (c : C) : Except E (R c) → List (Process C R E ι)
  | .ok _ => (S.fork role c).map Process.start
  | .error _ => []

/-- The state after the command `c` of the `i`-th process `p` was answered with `r`. -/
def after (s : State σ C R E ι Q) (i : ℕ) (p : Process C R E ι) (c : C)
    (k : Except E (R c) → Program C R E Unit) (w : σ) (r : Except E (R c)) (applied : Bool) :
    State σ C R E ι Q :=
  { s with
    world := w
    procs := s.procs.set i (p.resume c k r) ++ S.forked p.role c r
    hist := ⟨s.now, p.role, ⟨c, r⟩, applied⟩ :: s.hist }

/-- One step of the system; `none` when the action is not possible. -/
def step (s : State σ C R E ι Q) : Action E O Q → Option (State σ C R E ι Q)
  | .arrive q =>
    if S.admits s.arrivals q then
      some { s with
        procs := s.procs ++ [Process.start (S.handler q)]
        arrivals := q :: s.arrivals }
    else none
  | .answer i a =>
    match s.procs[i]? with
    | some p =>
      match p.prog with
      | .call c k => (S.respond s.now s.world c a).map fun x => S.after s i p c k x.1 x.2.1 x.2.2
      | _ => none
    | none => none
  | .crash i => if i < s.procs.length then some { s with procs := s.procs.eraseIdx i } else none
  | .tick d => some { s with now := s.now + d }

/-- How answering a command can change the world. -/
inductive Responds (now : ℕ) (w : σ) (c : C) : σ → Except E (R c) → Bool → Prop
  | reply (o : O) : Responds now w c (S.exec now w c o).1 (.ok (S.exec now w c o).2) true
  | lost (h : S.mayFail c = true) (e : E) : Responds now w c w (.error e) false
  | unheard (h : S.mayFail c = true) (e : E) (o : O) :
      Responds now w c (S.exec now w c o).1 (.error e) true

variable {S}

theorem responds_of_respond {now : ℕ} {w w' : σ} {c : C} {a : Answer E O} {r : Except E (R c)}
    {b : Bool} (h : S.respond now w c a = some (w', r, b)) : S.Responds now w c w' r b := by
  cases a with
  | reply o =>
    cases Option.some.inj h
    exact .reply o
  | lost e =>
    simp only [respond] at h
    split_ifs at h with hf
    cases Option.some.inj h
    exact .lost hf e
  | unheard e o =>
    simp only [respond] at h
    split_ifs at h with hf
    cases Option.some.inj h
    exact .unheard hf e o

/-- A process whose command was answered may have been answered so: a command that cannot fail
got its reply. -/
theorem Responds.ok_or_mayFail {now : ℕ} {w w' : σ} {c : C} {r : Except E (R c)} {b : Bool}
    (h : S.Responds now w c w' r b) : S.mayFail c = true ∨ ∃ a, r = .ok a := by
  cases h with
  | reply o => exact .inr ⟨_, rfl⟩
  | lost hf e => exact .inl hf
  | unheard hf e o => exact .inl hf

/-- Everything a step of the system can do. -/
inductive Steps (S : System σ C R E ι O Q) (s : State σ C R E ι Q) :
    Action E O Q → State σ C R E ι Q → Prop
  | arrive (q : Q) (h : S.admits s.arrivals q = true) :
      Steps S s (.arrive q) { s with
        procs := s.procs ++ [Process.start (S.handler q)]
        arrivals := q :: s.arrivals }
  | answer (i : ℕ) (a : Answer E O) (p : Process C R E ι) (c : C)
      (k : Except E (R c) → Program C R E Unit) (w : σ) (r : Except E (R c)) (applied : Bool)
      (hi : s.procs[i]? = some p) (hp : p.prog = .call c k)
      (hr : S.respond s.now s.world c a = some (w, r, applied)) :
      Steps S s (.answer i a) (S.after s i p c k w r applied)
  | crash (i : ℕ) (h : i < s.procs.length) :
      Steps S s (.crash i) { s with procs := s.procs.eraseIdx i }
  | tick (d : ℕ) : Steps S s (.tick d) { s with now := s.now + d }

theorem step_cases {s s' : State σ C R E ι Q} {a : Action E O Q} (h : S.step s a = some s') :
    S.Steps s a s' := by
  cases a with
  | arrive q =>
    simp only [step] at h
    split_ifs at h with hq
    obtain rfl := Option.some.inj h
    exact .arrive q hq
  | answer i a =>
    simp only [step] at h
    split at h
    · rename_i p hi
      split at h
      · rename_i c k hp
        obtain ⟨x, hx, rfl⟩ := Option.map_eq_some_iff.mp h
        exact .answer i a p c k x.1 x.2.1 x.2.2 hi hp hx
      · exact absurd h (by simp)
    · exact absurd h (by simp)
  | crash i =>
    simp only [step] at h
    split_ifs at h with hi
    obtain rfl := Option.some.inj h
    exact .crash i hi
  | tick d =>
    obtain rfl := Option.some.inj h
    exact .tick d

/-! ### Runs -/

variable (S)

/-- A run all of whose steps satisfy `P`, a condition on the state before the step and on what
happens next. -/
inductive Run (P : State σ C R E ι Q → Action E O Q → Prop) (s : State σ C R E ι Q) :
    State σ C R E ι Q → Prop
  | refl : Run P s s
  | step {s' s'' : State σ C R E ι Q} (h : Run P s s') (a : Action E O Q) (ha : P s' a)
      (hs : S.step s' a = some s'') : Run P s s''

/-- The states of all runs of the system. -/
def Reachable (s : State σ C R E ι Q) : Prop := S.Run (fun _ _ => True) S.start s

/-- The state after a list of actions, the first one first; `none` when one of them is not possible
or is taken against the test `P`. -/
def runs (P : State σ C R E ι Q → Action E O Q → Bool) (s : State σ C R E ι Q) :
    List (Action E O Q) → Option (State σ C R E ι Q)
  | [] => some s
  | a :: as => if P s a then (S.step s a).bind fun s' => runs P s' as else none

/-- The state that a list of actions leads to from `s`; `s` itself when they are not possible. -/
def run (s : State σ C R E ι Q) (as : List (Action E O Q)) : State σ C R E ι Q :=
  (S.runs (fun _ _ => true) s as).getD s

variable {S}
variable {P P' : State σ C R E ι Q → Action E O Q → Prop} {s s' s'' : State σ C R E ι Q}

/-- **Induction over runs.** What every step with the condition `P` preserves holds at the end
of every run with that condition. -/
theorem Run.invariant {I : State σ C R E ι Q → Prop} (h : S.Run P s s')
    (hstep : ∀ t a t', I t → P t a → S.step t a = some t' → I t') (hs : I s) : I s' := by
  induction h with
  | refl => exact hs
  | step h a ha hs' ih => exact hstep _ a _ ih ha hs'

theorem Run.mono (h : S.Run P s s') (hP : ∀ t a, P t a → P' t a) : S.Run P' s s' := by
  induction h with
  | refl => exact .refl
  | step h a ha hs ih => exact .step ih a (hP _ _ ha) hs

theorem Run.trans (h : S.Run P s s') (h' : S.Run P s' s'') : S.Run P s s'' := by
  induction h' with
  | refl => exact h
  | step _ a ha hs ih => exact .step ih a ha hs

theorem Run.reachable (h : S.Run P s s') (hs : S.Reachable s) : S.Reachable s' :=
  Run.trans hs (h.mono fun _ _ _ => trivial)

theorem Run.of_runs {test : State σ C R E ι Q → Action E O Q → Bool}
    (htest : ∀ t a, test t a = true → P t a) {as : List (Action E O Q)}
    (h : S.runs test s as = some s') : S.Run P s s' := by
  induction as generalizing s with
  | nil =>
    obtain rfl := Option.some.inj h
    exact .refl
  | cons a as ih =>
    rw [runs] at h
    split_ifs at h with ha
    obtain ⟨t, ht, h⟩ := Option.bind_eq_some_iff.mp h
    exact Run.trans (.step .refl a (htest s a ha) ht) (ih h)

/-- A list of actions that pass a test makes the same run as without it. -/
theorem runs_of_test {test : State σ C R E ι Q → Action E O Q → Bool}
    {as : List (Action E O Q)} (h : S.runs test s as = some s') :
    S.runs (fun _ _ => true) s as = some s' := by
  induction as generalizing s with
  | nil => exact h
  | cons a as ih =>
    rw [runs] at h
    split_ifs at h with ha
    obtain ⟨t, ht, h⟩ := Option.bind_eq_some_iff.mp h
    rw [runs, if_pos rfl, ht]
    exact ih h

/-- A list of possible actions that pass a test is a run with the tested condition. -/
theorem run_of_test (test : State σ C R E ι Q → Action E O Q → Bool)
    (htest : ∀ t a, test t a = true → P t a) (as : List (Action E O Q))
    (h : (S.runs test s as).isSome = true) : S.Run P s (S.run s as) := by
  obtain ⟨s', hs'⟩ := Option.isSome_iff_exists.mp h
  rw [run, runs_of_test hs']
  exact Run.of_runs htest hs'

theorem step_eq_run {a : Action E O Q} (h : (S.step s a).isSome = true) :
    S.step s a = some (S.run s [a]) := by
  obtain ⟨s', hs'⟩ := Option.isSome_iff_exists.mp h
  simp only [run, runs, hs', if_true, Option.bind_some, Option.getD_some]

theorem reachable_run (as : List (Action E O Q))
    (h : (S.runs (fun _ _ => true) S.start as).isSome = true) : S.Reachable (S.run S.start as) :=
  run_of_test (fun _ _ => true) (fun _ _ _ => trivial) as h

/-- The same, where the step may use that the state is reachable. -/
theorem Run.invariant_reachable {I : State σ C R E ι Q → Prop} (h : S.Run P s s')
    (hs : S.Reachable s)
    (hstep : ∀ t a t', S.Reachable t → I t → P t a → S.step t a = some t' → I t') (h0 : I s) :
    I s' := by
  have hboth : S.Reachable s' ∧ I s' := by
    refine Run.invariant (I := fun t => S.Reachable t ∧ I t) h ?_ ⟨hs, h0⟩
    rintro t a t' ⟨ht, ih⟩ ha hst
    exact ⟨Run.step ht a trivial hst, hstep t a t' ht ih ha hst⟩
  exact hboth.2

/-- **Invariants.** What holds at the start and is preserved by every step from a reachable state
holds in every reachable state. -/
theorem Reachable.invariant {I : State σ C R E ι Q → Prop} (h : S.Reachable s) (h0 : I S.start)
    (hstep : ∀ t a t', S.Reachable t → I t → S.step t a = some t' → I t') : I s :=
  Run.invariant_reachable h .refl (fun t a t' ht hI _ => hstep t a t' ht hI) h0

/-- What an action has to be for the next command `c` of the process `p` to be answered with `r`,
which leaves the world `w`. -/
structure Answered (S : System σ C R E ι O Q) (s : State σ C R E ι Q) (a : Action E O Q)
    (p : Process C R E ι) (c : C) (w : σ) (r : Except E (R c)) (applied : Bool) : Prop where
  action : ∃ i ans, a = .answer i ans ∧ s.procs[i]? = some p ∧
    S.respond s.now s.world c ans = some (w, r, applied)
  next : ∃ k, p.prog = .call c k

section Answered

variable {a : Action E O Q} {p : Process C R E ι} {c : C} {w : σ} {r : Except E (R c)} {b : Bool}

theorem Answered.mem (h : S.Answered s a p c w r b) : p ∈ s.procs := by
  obtain ⟨i, ans, -, hi, -⟩ := h.action
  exact List.mem_of_getElem? hi

theorem Answered.next_eq (h : S.Answered s a p c w r b) : s.next a = some (p, c) := by
  obtain ⟨i, ans, rfl, hi, -⟩ := h.action
  simp only [State.next, hi, Option.bind_some, Process.next_eq_some.mpr h.next, Option.map_some]

theorem Answered.responds (h : S.Answered s a p c w r b) : S.Responds s.now s.world c w r b := by
  obtain ⟨i, ans, -, -, hr⟩ := h.action
  exact responds_of_respond hr

end Answered

/-- A step that answers the command `c`. -/
theorem step_answered {a : Action E O Q} {p : Process C R E ι} {c : C}
    (hn : s.next a = some (p, c)) (h : S.step s a = some s') :
    ∃ i k w r b, S.Answered s a p c w r b ∧ s' = S.after s i p c k w r b := by
  cases step_cases h with
  | answer i ans q c' k w r b hi hq hr =>
    simp only [State.next, hi, Option.bind_some, Process.next_eq_some.mpr ⟨k, hq⟩,
      Option.map_some] at hn
    cases hn
    exact ⟨i, k, w, r, b, ⟨⟨i, ans, rfl, hi, hr⟩, k, hq⟩, rfl⟩
  | _ => cases hn

/-- **Invariants of the world and the history.** Only answered commands change these. -/
theorem Run.history_invariant {J : σ → List (Occurrence C R E ι) → Prop} (h : S.Run P s s')
    (hs : S.Reachable s)
    (hstep : ∀ t a p c w r b, S.Reachable t → P t a → S.Answered t a p c w r b →
      J t.world t.hist → J w (⟨t.now, p.role, ⟨c, r⟩, b⟩ :: t.hist))
    (h0 : J s.world s.hist) : J s'.world s'.hist := by
  refine Run.invariant_reachable (I := fun t => J t.world t.hist) h hs ?_ h0
  intro t a t' ht ih ha hst
  cases step_cases hst with
  | arrive q hq => exact ih
  | answer i ans p c k w r b hi hp hr =>
    exact hstep t _ p c w r b ht ha ⟨⟨i, ans, rfl, hi, hr⟩, k, hp⟩ ih
  | crash i hi => exact ih
  | tick n => exact ih

theorem Reachable.history_invariant {J : σ → List (Occurrence C R E ι) → Prop}
    (h : S.Reachable s) (h0 : J S.init [])
    (hstep : ∀ t a p c w r b, S.Reachable t → S.Answered t a p c w r b → J t.world t.hist →
      J w (⟨t.now, p.role, ⟨c, r⟩, b⟩ :: t.hist)) : J s.world s.hist :=
  Run.history_invariant h .refl (fun t a p c w r b ht _ => hstep t a p c w r b ht) h0

/-! ### Processes after a step -/

/-- Where a process comes from that is there after an answered command: it is the one that was
answered, an untouched one or a forked one. -/
theorem mem_procs_after {i : ℕ} {p q : Process C R E ι} {c : C}
    {k : Except E (R c) → Program C R E Unit} {w : σ} {r : Except E (R c)} {b : Bool}
    (h : q ∈ (S.after s i p c k w r b).procs) :
    q = p.resume c k r ∨ q ∈ s.procs ∨ q ∈ S.forked p.role c r := by
  rcases List.mem_append.mp h with h | h
  · exact (List.mem_or_eq_of_mem_set h).elim (fun h => .inr (.inl h)) .inl
  · exact .inr (.inr h)

/-- The same, told apart by position: an untouched process stands elsewhere. -/
theorem getElem?_procs_after {i j : ℕ} {p q : Process C R E ι} {c : C}
    {k : Except E (R c) → Program C R E Unit} {w : σ} {r : Except E (R c)} {b : Bool}
    (h : (S.after s i p c k w r b).procs[j]? = some q) :
    (j = i ∧ q = p.resume c k r) ∨ (j ≠ i ∧ s.procs[j]? = some q) ∨ q ∈ S.forked p.role c r := by
  change (s.procs.set i (p.resume c k r) ++ S.forked p.role c r)[j]? = some q at h
  by_cases hlt : j < s.procs.length
  · rw [List.getElem?_append_left (by rwa [List.length_set])] at h
    by_cases hj : j = i
    · subst hj
      rw [List.getElem?_set_self hlt] at h
      exact .inl ⟨rfl, (Option.some.inj h).symm⟩
    · rw [List.getElem?_set_ne (Ne.symm hj)] at h
      exact .inr (.inl ⟨hj, h⟩)
  · rw [List.getElem?_append_right (by rw [List.length_set]; omega)] at h
    exact .inr (.inr (List.mem_of_getElem? h))

/-- An answer keeps the roles of the processes and adds those of the forked ones. -/
theorem roles_after {i : ℕ} {p : Process C R E ι} {c : C}
    {k : Except E (R c) → Program C R E Unit} {w : σ} {r : Except E (R c)} {b : Bool}
    (hi : s.procs[i]? = some p) : (S.after s i p c k w r b).procs.map Process.role =
      s.procs.map Process.role ++ (S.forked p.role c r).map Process.role := by
  have hrole : (s.procs.map Process.role)[i]? = some p.role := by rw [List.getElem?_map, hi]; rfl
  obtain ⟨hlt, hget⟩ := List.getElem?_eq_some_iff.mp hrole
  have hsame : (s.procs.map Process.role).set i p.role = s.procs.map Process.role := by
    rw [← hget]
    exact List.set_getElem_self hlt
  change (s.procs.set i (p.resume c k r) ++ S.forked p.role c r).map Process.role = _
  rw [List.map_append, List.map_set]
  exact congrArg (· ++ _) hsame

/-- A forked process starts a program that the command's role forks. -/
theorem mem_forked {role : ι} {c : C} {r : Except E (R c)} {q : Process C R E ι}
    (h : q ∈ S.forked role c r) : ∃ x ∈ S.fork role c, q = Process.start x := by
  cases r with
  | ok a =>
    obtain ⟨x, hx, rfl⟩ := List.mem_map.mp h
    exact ⟨x, hx, rfl⟩
  | error e => exact absurd h (List.not_mem_nil)

/-- The trace of a process of the given role is part of the history, in the same order, and the
commands that were answered with a reply took effect. -/
def Traced (hist : List (Occurrence C R E ι)) (role : ι) (t : List (Event C R E)) : Prop :=
  ∃ os : List (Occurrence C R E ι), os.Sublist hist ∧ os.map Occurrence.event = t ∧
    ∀ o ∈ os, o.role = role ∧ ((∃ a, o.event.answer = .ok a) → o.applied = true)

section Traced

variable {hist : List (Occurrence C R E ι)} {role : ι} {t : List (Event C R E)}

theorem traced_nil : Traced hist role [] :=
  ⟨[], List.nil_sublist _, rfl, fun _ ho => absurd ho List.not_mem_nil⟩

theorem Traced.mono {hist' : List (Occurrence C R E ι)} (h : Traced hist role t)
    (hh : hist.Sublist hist') : Traced hist' role t := by
  obtain ⟨os, hsub, h⟩ := h
  exact ⟨os, hsub.trans hh, h⟩

theorem Traced.cons (h : Traced hist role t) {o : Occurrence C R E ι} (hrole : o.role = role)
    (happ : (∃ a, o.event.answer = .ok a) → o.applied = true) :
    Traced (o :: hist) role (o.event :: t) := by
  obtain ⟨os, hsub, hmap, hos⟩ := h
  refine ⟨o :: os, hsub.cons_cons o, congrArg _ hmap, fun o' ho' => ?_⟩
  rcases List.mem_cons.mp ho' with rfl | ho'
  · exact ⟨hrole, happ⟩
  · exact hos o' ho'

/-- An event of the trace is an occurrence of the history. -/
theorem Traced.mem (h : Traced hist role t) {e : Event C R E} (he : e ∈ t) :
    ∃ o ∈ hist, o.role = role ∧ o.event = e ∧ ((∃ a, e.answer = .ok a) → o.applied = true) := by
  obtain ⟨os, hsub, rfl, hos⟩ := h
  obtain ⟨o, ho, rfl⟩ := List.mem_map.mp he
  exact ⟨o, hsub.subset ho, (hos o ho).1, rfl, (hos o ho).2⟩

/-- What is older in the trace is older in the history, and a command that was answered with a
reply took effect. -/
theorem Traced.older_applied (h : Traced hist role t) {e : Event C R E}
    {older : List (Event C R E)} (he : e :: older <:+ t) :
    ∃ o h', o :: h' <:+ hist ∧ o.role = role ∧ o.event = e ∧
      ((∃ a, e.answer = .ok a) → o.applied = true) ∧ Traced h' role older := by
  obtain ⟨os, hsub, rfl, hos⟩ := h
  obtain ⟨newer, heq⟩ := he
  obtain ⟨os₁, os₂, rfl, -, hmap⟩ := List.map_eq_append_iff.mp heq.symm
  obtain ⟨o, os₃, rfl, rfl, rfl⟩ := List.map_eq_cons_iff.mp hmap
  have hmem : ∀ o' ∈ o :: os₃, o' ∈ os₁ ++ o :: os₃ := fun o' ho' => List.mem_append_right _ ho'
  obtain ⟨r₁, r₂, rfl, hr₁, hr₂⟩ :=
    List.cons_sublist_iff.mp ((List.sublist_append_right os₁ (o :: os₃)).trans hsub)
  obtain ⟨a, b, rfl⟩ := List.append_of_mem hr₁
  have ho := hos o (hmem o List.mem_cons_self)
  refine ⟨o, b ++ r₂, ⟨a, by simp⟩, ho.1, rfl, ho.2, os₃,
    hr₂.trans (List.sublist_append_right b r₂), rfl, fun o' ho' => ?_⟩
  exact hos o' (hmem o' (List.mem_cons_of_mem o ho'))

/-- What is older in the trace is older in the history. -/
theorem Traced.older (h : Traced hist role t) {e : Event C R E} {older : List (Event C R E)}
    (he : e :: older <:+ t) :
    ∃ o h', o :: h' <:+ hist ∧ o.role = role ∧ o.event = e ∧ Traced h' role older := by
  obtain ⟨o, h', hsuf, hrole, hev, -, hrec⟩ := h.older_applied he
  exact ⟨o, h', hsuf, hrole, hev, hrec⟩

end Traced

/-- **Traces are part of the history.** -/
theorem reachable_traced (h : S.Reachable s) : ∀ p ∈ s.procs, Traced s.hist p.role p.trace := by
  refine Reachable.invariant (I := fun s => ∀ p ∈ s.procs, Traced s.hist p.role p.trace) h
    (by simp [System.start]) ?_
  intro t a t' _ ih hs
  cases step_cases hs with
  | arrive q hq =>
    intro p hp
    rcases List.mem_append.mp hp with hp | hp
    · exact ih p hp
    · rw [List.mem_singleton.mp hp]
      exact traced_nil
  | answer i a p c k w r b hi hpc hr =>
    intro q hq
    rcases mem_procs_after hq with rfl | hq | hq
    · refine (ih p (List.mem_of_getElem? hi)).cons (o := ⟨t.now, p.role, ⟨c, r⟩, b⟩) rfl ?_
      rintro ⟨x, hx⟩
      cases responds_of_respond hr with
      | reply o => rfl
      | lost hf e => cases hx
      | unheard hf e o => rfl
    · exact (ih q hq).mono (List.sublist_cons_self _ _)
    · obtain ⟨x, -, rfl⟩ := mem_forked hq
      exact traced_nil
  | crash i hi => exact fun p hp => ih p (List.mem_of_mem_eraseIdx hp)
  | tick d => exact ih

/-- A role comes from a request that arrived or from a command that was answered. -/
def Originates (S : System σ C R E ι O Q) (s : State σ C R E ι Q) (role : ι) : Prop :=
  (∃ q ∈ s.arrivals, (S.handler q).1 = role) ∨
  ∃ o ∈ s.hist, ∃ x ∈ S.fork o.role o.event.cmd, x.1 = role

theorem Originates.mono {role : ι} (h : S.Originates s role)
    (ha : ∀ q ∈ s.arrivals, q ∈ s'.arrivals) (hh : ∀ o ∈ s.hist, o ∈ s'.hist) :
    S.Originates s' role := by
  rcases h with ⟨q, hq, h⟩ | ⟨o, ho, h⟩
  · exact .inl ⟨q, ha q hq, h⟩
  · exact .inr ⟨o, hh o ho, h⟩

/-- **Where roles come from**, of the processes and of the answered commands. -/
theorem reachable_originates (h : S.Reachable s) :
    (∀ p ∈ s.procs, S.Originates s p.role) ∧ ∀ o ∈ s.hist, S.Originates s o.role := by
  refine Reachable.invariant (I := fun s => (∀ p ∈ s.procs, S.Originates s p.role) ∧
    ∀ o ∈ s.hist, S.Originates s o.role) h (by simp [System.start]) ?_
  rintro t a t' - ⟨ihp, iho⟩ hs
  cases step_cases hs with
  | arrive q hq =>
    have hmono : ∀ {role : ι}, S.Originates t role → S.Originates { t with
        procs := t.procs ++ [Process.start (S.handler q)]
        arrivals := q :: t.arrivals } role := fun h =>
      h.mono (fun _ hq' => List.mem_cons_of_mem q hq') fun _ ho => ho
    refine ⟨fun p hp => ?_, fun o ho => hmono (iho o ho)⟩
    rcases List.mem_append.mp hp with hp | hp
    · exact hmono (ihp p hp)
    · rw [List.mem_singleton.mp hp]
      exact .inl ⟨q, List.mem_cons_self, rfl⟩
  | answer i a p c k w r b hi hpc hr =>
    have hmono : ∀ {role : ι}, S.Originates t role →
        S.Originates (S.after t i p c k w r b) role := fun h =>
      h.mono (fun _ hq' => hq') fun _ ho => List.mem_cons_of_mem _ ho
    have hp := hmono (ihp p (List.mem_of_getElem? hi))
    refine ⟨fun q hq => ?_, fun o ho => ?_⟩
    · rcases mem_procs_after hq with rfl | hq | hq
      · exact hp
      · exact hmono (ihp q hq)
      · obtain ⟨x, hx, rfl⟩ := mem_forked hq
        exact .inr ⟨_, List.mem_cons_self, x, hx, rfl⟩
    · rcases List.mem_cons.mp ho with rfl | ho
      · exact hp
      · exact hmono (iho o ho)
  | crash i hi => exact ⟨fun p hp => ihp p (List.mem_of_mem_eraseIdx hp), iho⟩
  | tick d => exact ⟨ihp, iho⟩

/-! ### Sums over the traces -/

section Sums

variable {M : Type} [AddCommGroup M]

/-- Replacing one element of a list by one that weighs `m` more. -/
theorem sum_map_set {α : Type} {l : List α} {i : ℕ} {a b : α} (f : α → M) {m : M}
    (hi : l[i]? = some a) (hb : f b = m + f a) :
    ((l.set i b).map f).sum = m + (l.map f).sum := by
  obtain ⟨hlt, hget⟩ := List.getElem?_eq_some_iff.mp hi
  have hlen : i < (l.map f).length := by rwa [List.length_map]
  rw [List.map_set, List.sum_set', dif_pos hlen, List.getElem_map, hget, hb]
  abel

/-- What the answered commands of a process weigh together. -/
def traceWeight (weight : Event C R E → M) (p : Process C R E ι) : M := (p.trace.map weight).sum

/-- **Sums over the traces.** If every answered command changes the value of the world by its
weight, then in every run without crashes the value has changed by what all the traces weigh. -/
theorem Run.sum_traces (value : σ → M) (weight : Event C R E → M)
    (hexec : ∀ now w c w' r b, S.Responds now w c w' r b → value w' = weight ⟨c, r⟩ + value w)
    (hcrash : ∀ t a, P t a → ∀ i, a ≠ .crash i) (h : S.Run P S.start s) :
    value s.world = (s.procs.map (traceWeight weight)).sum + value S.init := by
  refine Run.invariant (I := fun t => value t.world =
    (t.procs.map (traceWeight weight)).sum + value S.init) h ?_ ?_
  · intro t a t' ih ha hst
    cases step_cases hst with
    | arrive q hq =>
      have hnew : traceWeight weight (Process.start (S.handler q)) = 0 := rfl
      simpa [hnew] using ih
    | answer i ans p c k w r b hi hp hr =>
      have hforked : ((S.forked p.role c r).map (traceWeight weight)).sum = 0 := by
        refine List.sum_eq_zero fun x hx => ?_
        obtain ⟨q, hq, rfl⟩ := List.mem_map.mp hx
        obtain ⟨y, -, rfl⟩ := mem_forked hq
        rfl
      have hset := sum_map_set (traceWeight weight) (b := p.resume c k r)
        (m := weight ⟨c, r⟩) hi rfl
      change value w = ((t.procs.set i (p.resume c k r) ++ S.forked p.role c r).map
        (traceWeight weight)).sum + value S.init
      rw [List.map_append, List.sum_append, hforked, hset,
        hexec _ _ _ _ _ _ (responds_of_respond hr), ih]
      abel
    | crash i hi => exact absurd rfl (hcrash t _ ha i)
    | tick n => exact ih
  · exact (zero_add _).symm

end Sums

end System

/-! ### Disciplines -/

/-- What the processes of each role owe: which commands they may issue after which trace, and how
they may end. -/
structure Discipline (C : Type) (R : C → Type) (E ι : Type) where
  allows : ι → List (Event C R E) → C → Prop
  ends : ι → List (Event C R E) → Prop

namespace System

variable (S : System σ C R E ι O Q) (D : Discipline C R E ι)

/-- The contract of a role: a command that cannot fail is answered with its reply. -/
def contract (role : ι) : Contract C R E where
  allows := D.allows role
  answers _ c r := S.mayFail c = true ∨ ∃ a, r = .ok a

/-- The program keeps the discipline of the role from the trace `t` on. -/
def Kept (role : ι) (t : List (Event C R E)) (p : Program C R E Unit) : Prop :=
  p.wp (S.contract D role) (fun _ t' => D.ends role t') t

variable {S D} {s : State σ C R E ι Q}

/-- **Programs that keep a discipline keep it in every run.** It is enough that the handlers of
the requests keep it, and the forked programs when the command that forks them is allowed. -/
theorem reachable_kept (h : S.Reachable s)
    (hhandler : ∀ q, S.Kept D (S.handler q).1 [] (S.handler q).2)
    (hfork : ∀ role t c, D.allows role t c → ∀ x ∈ S.fork role c, S.Kept D x.1 [] x.2) :
    ∀ p ∈ s.procs, S.Kept D p.role p.trace p.prog := by
  refine Reachable.invariant (I := fun s => ∀ p ∈ s.procs, S.Kept D p.role p.trace p.prog) h
    (by simp [System.start]) ?_
  intro t a t' _ ih hs
  cases step_cases hs with
  | arrive q hq =>
    intro p hp
    rcases List.mem_append.mp hp with hp | hp
    · exact ih p hp
    · rw [List.mem_singleton.mp hp]
      exact hhandler q
  | answer i a p c k w r b hi hpc hr =>
    have hkept := ih p (List.mem_of_getElem? hi)
    rw [Kept, hpc] at hkept
    intro q hq
    rcases mem_procs_after hq with rfl | hq | hq
    · exact hkept.2 r (responds_of_respond hr).ok_or_mayFail
    · exact ih q hq
    · obtain ⟨x, hx, rfl⟩ := mem_forked hq
      exact hfork p.role p.trace c hkept.1 x hx
  | crash i hi => exact fun p hp => ih p (List.mem_of_mem_eraseIdx hp)
  | tick d => exact ih

/-- The next command of a process that keeps a discipline is allowed. -/
theorem Kept.allows {role : ι} {t : List (Event C R E)} {p : Program C R E Unit} {c : C}
    {k : Except E (R c) → Program C R E Unit} (h : S.Kept D role t p) (hp : p = .call c k) :
    D.allows role t c := by
  rw [Kept, hp] at h
  exact h.1

/-- A process that keeps a discipline and has ended has ended as it should. -/
theorem Kept.ends {p : Process C R E ι} (h : S.Kept D p.role p.trace p.prog)
    (hp : p.next = none) : D.ends p.role p.trace := by
  obtain ⟨role, t, prog⟩ := p
  cases prog with
  | pure a => exact h
  | throw e => exact h
  | call c k => cases hp

/-- **Answered commands were allowed**, after a trace that is part of the older history. -/
theorem reachable_allowed (h : S.Reachable s)
    (hkept : ∀ t, S.Reachable t → ∀ p ∈ t.procs, S.Kept D p.role p.trace p.prog) :
    ∀ o older, o :: older <:+ s.hist →
      ∃ t, D.allows o.role t o.event.cmd ∧ Traced older o.role t := by
  refine Reachable.history_invariant (J := fun _ hist => ∀ o older, o :: older <:+ hist →
    ∃ t, D.allows o.role t o.event.cmd ∧ Traced older o.role t) h ?_ ?_
  · exact fun o older ho => absurd (List.suffix_nil.mp ho) (List.cons_ne_nil o older)
  · intro t a p c w r b ht ha ih o older ho
    rcases List.suffix_cons_iff.mp ho with heq | ho
    · obtain ⟨rfl, rfl⟩ := List.cons.inj heq
      obtain ⟨k, hk⟩ := ha.next
      exact ⟨p.trace, (hkept t ht p ha.mem).allows hk, reachable_traced ht p ha.mem⟩
    · exact ih o older ho

end System

end Async
