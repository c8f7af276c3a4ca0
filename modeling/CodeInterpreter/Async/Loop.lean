import CodeInterpreter.Async.Program

/-!
# Event loops

A single-threaded runtime: programs are the tasks of one event loop and act on its data `σ`. A task
runs without interruption until it awaits something. `Loop.issue` says what issuing a command does:
a local command has its effect and its reply at once, any other one suspends the task, possibly
after a first effect. `Loop.complete` is the effect of the answer to a command that was awaited, and
`Loop.event` starts a task when something happens outside. Answers and events come in any order.

A task is at a *position* when what is left of it is the program of that position. The rule
`Loop.Run.positions` proves an invariant of the data together with the positions of all tasks: it is
enough to follow one task from one position to the next.

## Main definitions

* `Async.Loop`, `Async.Loop.advance`, `Async.LoopState`, `Async.Turn`, `Async.Loop.step`.
* `Async.Loop.Run A`: a run all of whose turns satisfy `A`; `Async.Loop.Reachable`.
* `Async.Loop.run`: the same, computed from a list of turns.

## Main results

* `Async.Loop.advance_bind`, `Async.Loop.advance_tryCatch`: a turn of a composed program.
* `Async.Loop.Run.positions`: the invariant rule.
* `Async.Loop.Run.data`: an invariant of the data, from the commands that the tasks issue.
-/

namespace Async

/-- An event loop with data `σ`, over commands `C` and events `V`. -/
structure Loop (σ C : Type) (R : C → Type) (E V : Type) where
  init : σ
  issue : σ → (c : C) → σ × Option (R c)
  complete : σ → (c : C) → Except E (R c) → Option σ
  event : σ → V → Option (σ × Program C R E Unit)

/-- The data of a loop and its tasks, in the order in which they were started. -/
structure LoopState (σ C : Type) (R : C → Type) (E : Type) where
  data : σ
  tasks : List (Program C R E Unit)

/-- What can happen next: an event, or the answer to the command that a task awaits. -/
inductive Turn (C : Type) (R : C → Type) (E V : Type)
  | event (v : V)
  | resume (i : ℕ) (answer : (c : C) → Except E (R c))

/-- The program has ended. -/
def Program.Finished {C : Type} {R : C → Type} {E α : Type} : Program C R E α → Prop
  | .call _ _ => False
  | _ => True

variable {σ C : Type} {R : C → Type} {E V α β : Type}

namespace Loop

variable (L : Loop σ C R E V)

/-- Run a program up to its end or to the first command that it has to await. -/
def advance : σ → Program C R E α → σ × Program C R E α
  | d, .pure a => (d, .pure a)
  | d, .throw e => (d, .throw e)
  | d, .call c k =>
    match L.issue d c with
    | (d', some r) => advance d' (k (.ok r))
    | (d', none) => (d', .call c k)

/-- The state before anything happened. -/
def start : LoopState σ C R E := ⟨L.init, []⟩

/-- One turn; `none` when it is not possible. -/
def step (s : LoopState σ C R E) : Turn C R E V → Option (LoopState σ C R E)
  | .event v => (L.event s.data v).map fun x =>
    ⟨(L.advance x.1 x.2).1, s.tasks ++ [(L.advance x.1 x.2).2]⟩
  | .resume i answer =>
    match s.tasks[i]? with
    | some (.call c k) => (L.complete s.data c (answer c)).map fun d =>
      ⟨(L.advance d (k (answer c))).1, s.tasks.set i (L.advance d (k (answer c))).2⟩
    | _ => none

/-- The states of the runs all of whose turns satisfy `A` in the state they start from. -/
inductive Run (A : LoopState σ C R E → Turn C R E V → Prop) : LoopState σ C R E → Prop
  | start : Run A L.start
  | step {s s' : LoopState σ C R E} {a : Turn C R E V} (h : Run A s) (ha : A s a)
      (hs : L.step s a = some s') : Run A s'

/-- The states of all runs. -/
def Reachable (s : LoopState σ C R E) : Prop := L.Run (fun _ _ => True) s

/-- The state after a list of turns, when each of them is possible and passes the test. -/
def runs (test : LoopState σ C R E → Turn C R E V → Bool) :
    LoopState σ C R E → List (Turn C R E V) → Option (LoopState σ C R E)
  | s, [] => some s
  | s, a :: as => if test s a then (L.step s a).bind fun s' => runs test s' as else none

/-- The state after a list of turns; turns that are not possible are skipped. -/
def run : LoopState σ C R E → List (Turn C R E V) → LoopState σ C R E
  | s, [] => s
  | s, a :: as => run ((L.step s a).getD s) as

variable {L}

/-! ### Turns of composed programs -/

theorem advance_bind (d : σ) (p : Program C R E α) (f : α → Program C R E β) :
    L.advance d (p >>= f) =
      match L.advance d p with
      | (d', .pure a) => L.advance d' (f a)
      | (d', p') => (d', p' >>= f) := by
  change L.advance d (p.bind f) = _
  induction p generalizing d with
  | pure a => rfl
  | throw e => rfl
  | call c k ih =>
    simp only [Program.bind, advance]
    split
    · exact ih _ _
    · rfl

theorem advance_tryCatch (d : σ) (p : Program C R E α) (h : E → Program C R E α) :
    L.advance d (MonadExcept.tryCatch p h) =
      match L.advance d p with
      | (d', .throw e) => L.advance d' (h e)
      | (d', p') => (d', MonadExcept.tryCatch p' h) := by
  change L.advance d (p.tryCatch h) = _
  induction p generalizing d with
  | pure a => rfl
  | throw e => rfl
  | call c k ih =>
    simp only [Program.tryCatch, advance]
    split
    · exact ih _ _
    · rfl

/-! ### Runs -/

theorem step_event {s : LoopState σ C R E} {v : V} {d d' : σ} {p q : Program C R E Unit}
    (hv : L.event s.data v = some (d, p)) (hadvance : L.advance d p = (d', q)) :
    L.step s (.event v) = some ⟨d', s.tasks ++ [q]⟩ := by
  simp only [step, hv, Option.map_some, hadvance]

theorem step_resume {s : LoopState σ C R E} {i : ℕ} (answer : (c : C) → Except E (R c)) {c : C}
    {k : Except E (R c) → Program C R E Unit} {d d' : σ} {q : Program C R E Unit}
    (hi : s.tasks[i]? = some (.call c k)) (hd : L.complete s.data c (answer c) = some d)
    (hadvance : L.advance d (k (answer c)) = (d', q)) :
    L.step s (.resume i answer) = some ⟨d', s.tasks.set i q⟩ := by
  simp only [step, hi, hd, Option.map_some, hadvance]

theorem run_of_runs {A : LoopState σ C R E → Turn C R E V → Prop}
    {test : LoopState σ C R E → Turn C R E V → Bool} (htest : ∀ s a, test s a = true → A s a)
    {s : LoopState σ C R E} (hs : L.Run A s) (as : List (Turn C R E V))
    (h : (L.runs test s as).isSome = true) : L.Run A (L.run s as) := by
  induction as generalizing s with
  | nil => exact hs
  | cons a as ih =>
    simp only [runs] at h
    split at h
    · next ha =>
      cases hstep : L.step s a with
      | none => simp [hstep] at h
      | some s' =>
        rw [hstep] at h
        rw [run, hstep]
        exact ih (.step hs (htest s a ha) hstep) h
    · cases h

theorem reachable_run (as : List (Turn C R E V))
    (h : (L.runs (fun _ _ => true) L.start as).isSome = true) : L.Reachable (L.run L.start as) :=
  run_of_runs (fun _ _ _ => trivial) .start as h

theorem exists_append_of_getElem? {xs : List α} {i : ℕ} {x : α} (h : xs[i]? = some x) :
    ∃ l r, xs = l ++ x :: r ∧ l.length = i := by
  obtain ⟨hi, rfl⟩ := List.getElem?_eq_some_iff.mp h
  exact ⟨xs.take i, xs.drop (i + 1), by simp, by simp; omega⟩

/-- A turn keeps what the commands of the program keep. -/
theorem advance_data {I : σ → Prop} {P : C → Prop}
    (hissue : ∀ d c, P c → I d → I (L.issue d c).1) {d : σ} {p : Program C R E α} (hd : I d)
    (hp : p.Issues P) : I (L.advance d p).1 ∧ (L.advance d p).2.Issues P := by
  induction p generalizing d with
  | pure a => exact ⟨hd, hp⟩
  | throw e => exact ⟨hd, hp⟩
  | call c k ih =>
    have hd' := hissue d c hp.1 hd
    simp only [advance]
    split
    · next d' r heq =>
      rw [heq] at hd'
      exact ih (.ok r) hd' (hp.2 (.ok r))
    · next d' heq =>
      rw [heq] at hd'
      exact ⟨hd', hp⟩

/-- **The rule for the data.** When all tasks issue only commands that satisfy `P`, it is enough to
know that these commands and their answers keep `I`. -/
theorem Run.data {A : LoopState σ C R E → Turn C R E V → Prop} {I : σ → Prop} {P : C → Prop}
    {s : LoopState σ C R E} (h : L.Run A s) (hinit : I L.init)
    (hevent : ∀ d v d' p, I d → L.event d v = some (d', p) → I d' ∧ p.Issues P)
    (hissue : ∀ d c, P c → I d → I (L.issue d c).1)
    (hcomplete : ∀ d c r d', P c → I d → L.complete d c r = some d' → I d') :
    I s.data ∧ ∀ p ∈ s.tasks, p.Issues P := by
  induction h with
  | start => exact ⟨hinit, fun p hp => absurd hp List.not_mem_nil⟩
  | @step s s' a _ _ hs ih =>
    cases a with
    | event v =>
      obtain ⟨⟨d', p⟩, hv, rfl⟩ := Option.map_eq_some_iff.mp hs
      obtain ⟨hd', hp⟩ := hevent s.data v d' p ih.1 hv
      obtain ⟨hdata, hissues⟩ := advance_data hissue hd' hp
      refine ⟨hdata, fun q hq => ?_⟩
      rcases List.mem_append.mp hq with hq | hq
      · exact ih.2 q hq
      · exact List.mem_singleton.mp hq ▸ hissues
    | resume i answer =>
      simp only [Loop.step] at hs
      split at hs
      · next c k hi =>
        obtain ⟨d', hd', rfl⟩ := Option.map_eq_some_iff.mp hs
        have hcall := ih.2 (.call c k) (List.mem_of_getElem? hi)
        obtain ⟨hdata, hissues⟩ := advance_data hissue
          (hcomplete s.data c (answer c) d' hcall.1 ih.1 hd') (hcall.2 (answer c))
        refine ⟨hdata, fun q hq => ?_⟩
        rcases List.mem_or_eq_of_mem_set hq with hq | rfl
        · exact ih.2 q hq
        · exact hissues
      · cases hs

/-- **The invariant rule.** Every task is always at a position, and `I` holds of the data and the
positions, when both follow one task from an event or an answer to its next position. -/
theorem Run.positions {A : LoopState σ C R E → Turn C R E V → Prop} {Pos : Type}
    {prog : Pos → Program C R E Unit} {I : σ → List Pos → Prop} {s : LoopState σ C R E}
    (h : L.Run A s) (hinit : I L.init [])
    (hevent : ∀ d xs v d' p, A ⟨d, xs.map prog⟩ (.event v) → I d xs → L.event d v = some (d', p) →
      ∃ d'' x, L.advance d' p = (d'', prog x) ∧ I d'' (xs ++ [x]))
    (hresume : ∀ d l x r answer c k d', A ⟨d, (l ++ x :: r).map prog⟩ (.resume l.length answer) →
      I d (l ++ x :: r) → prog x = .call c k → L.complete d c (answer c) = some d' →
      ∃ d'' x', L.advance d' (k (answer c)) = (d'', prog x') ∧ I d'' (l ++ x' :: r)) :
    ∃ xs, s.tasks = xs.map prog ∧ I s.data xs := by
  induction h with
  | start => exact ⟨[], rfl, hinit⟩
  | @step s s' a _ ha hs ih =>
    obtain ⟨xs, htasks, hI⟩ := ih
    obtain ⟨d, tasks⟩ := s
    obtain rfl : tasks = xs.map prog := htasks
    cases a with
    | event v =>
      obtain ⟨⟨d', p⟩, hv, rfl⟩ := Option.map_eq_some_iff.mp hs
      obtain ⟨d'', x, hadvance, hI'⟩ := hevent d xs v d' p ha hI hv
      exact ⟨xs ++ [x], by simp [hadvance], by simpa [hadvance] using hI'⟩
    | resume i answer =>
      simp only [Loop.step] at hs
      split at hs
      · next c k hi =>
        rw [List.getElem?_map, Option.map_eq_some_iff] at hi
        obtain ⟨x, hx, hprog⟩ := hi
        obtain ⟨l, r, rfl, rfl⟩ := exists_append_of_getElem? hx
        obtain ⟨d', hd', rfl⟩ := Option.map_eq_some_iff.mp hs
        obtain ⟨d'', x', hadvance, hI'⟩ := hresume d l x r answer c k d' ha hI hprog hd'
        refine ⟨l ++ x' :: r, ?_, by simpa [hadvance] using hI'⟩
        simp [hadvance]
      · cases hs

end Loop

end Async
