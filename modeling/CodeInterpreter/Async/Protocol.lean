import CodeInterpreter.Async.Program

/-!
# Protocols

A protocol is an automaton over the events of programs: `next s e` is the stage after the event `e`
at the stage `s`, and `none` when `e` is out of place there. A program follows the protocol when no
answers make it issue a command that is out of place. `Program.Follows` says so by recursion on the
program, without a trace; it is compositional for the combinators.

## Main definitions

* `Async.Program.Follows`: a program that follows a protocol, with what holds of its end.
* `Async.stageAfter`: the stage after a trace.

## Main results

* `Async.Program.follows_bind`, `Async.Program.follows_tryCatch`, `Async.Program.follows_ensuring`.
* `Async.Program.Issues.follows`: commands that leave the stage as it is.
* `Async.Program.Follows.runs`: a run of a program that follows a protocol is a run of the protocol.
-/

namespace Async

variable {C D : Type} {R : C → Type} {T : D → Type} {E α β σ : Type}

/-- The stage after a trace, newest event first. -/
def stageAfter (next : σ → Event C R E → Option σ) (start : σ) : List (Event C R E) → Option σ
  | [] => some start
  | e :: t => (stageAfter next start t).bind fun s => next s e

theorem stageAfter_suffix {next : σ → Event C R E → Option σ} {start s : σ}
    {t t' : List (Event C R E)} (h : stageAfter next start t' = some s) (ht : t <:+ t') :
    ∃ s₀, stageAfter next start t = some s₀ := by
  induction t' generalizing s with
  | nil => exact ⟨s, List.suffix_nil.mp ht ▸ h⟩
  | cons e t' ih =>
    rcases List.suffix_cons_iff.mp ht with rfl | ht
    · exact ⟨s, h⟩
    · obtain ⟨s', hs', -⟩ := Option.bind_eq_some_iff.mp h
      exact ih hs' ht

/-- Every event of a run of the protocol is in its place, after the events before it. -/
theorem stageAfter_event {next : σ → Event C R E → Option σ} {start s : σ}
    {t older : List (Event C R E)} {e : Event C R E} (h : stageAfter next start t = some s)
    (ht : e :: older <:+ t) :
    ∃ s₀ s₁, stageAfter next start older = some s₀ ∧ next s₀ e = some s₁ := by
  obtain ⟨s₁, hs₁⟩ := stageAfter_suffix h ht
  obtain ⟨s₀, hs₀, hnext⟩ := Option.bind_eq_some_iff.mp hs₁
  exact ⟨s₀, s₁, hs₀, hnext⟩

/-- What holds of the start and is kept by each event holds after every run of the protocol. -/
theorem stageAfter_invariant {next : σ → Event C R E → Option σ} {start s : σ}
    {t t' : List (Event C R E)} {Inv : σ → List (Event C R E) → Prop} (hstart : Inv start [])
    (hstep : ∀ s t e s', e :: t <:+ t' → Inv s t → next s e = some s' → Inv s' (e :: t))
    (h : stageAfter next start t = some s) (ht : t <:+ t') : Inv s t := by
  induction t generalizing s with
  | nil =>
    cases h
    exact hstart
  | cons e t ih =>
    obtain ⟨s₀, hs₀, hnext⟩ := Option.bind_eq_some_iff.mp h
    exact hstep s₀ t e s ht (ih hs₀ ((List.suffix_cons e t).trans ht)) hnext

namespace Program

variable (next : σ → Event C R E → Option σ)

/-- From the stage `s` on, every event of the program is in its place, whatever the answers, and the
program ends with an outcome and a stage that satisfy `Q`. -/
def Follows : Program C R E α → σ → (Except E α → σ → Prop) → Prop
  | .pure a, s, Q => Q (.ok a) s
  | .throw e, s, Q => Q (.error e) s
  | .call c k, s, Q => ∀ r, ∃ s', next s ⟨c, r⟩ = some s' ∧ (k r).Follows s' Q

variable {next} {s : σ}

theorem Follows.mono {p : Program C R E α} {Q Q' : Except E α → σ → Prop} (hp : p.Follows next s Q)
    (h : ∀ out s, Q out s → Q' out s) : p.Follows next s Q' := by
  induction p generalizing s with
  | pure a => exact h _ _ hp
  | throw e => exact h _ _ hp
  | call c k ih =>
    intro r
    obtain ⟨s', hs', hk⟩ := hp r
    exact ⟨s', hs', ih r hk⟩

theorem follows_ofExcept (x : Except E α) (Q : Except E α → σ → Prop) :
    (ofExcept x : Program C R E α).Follows next s Q ↔ Q x s := by
  cases x <;> exact Iff.rfl

theorem follows_perform {c : C} {Q : Except E (R c) → σ → Prop} :
    (perform c : Program C R E (R c)).Follows next s Q ↔
      ∀ r, ∃ s', next s ⟨c, r⟩ = some s' ∧ Q r s' := by
  simp only [perform, Follows, follows_ofExcept]

theorem follows_bind {p : Program C R E α} {f : α → Program C R E β} {Q : Except E β → σ → Prop} :
    (p >>= f).Follows next s Q ↔ p.Follows next s (fun out s' => match out with
      | .ok a => (f a).Follows next s' Q
      | .error e => Q (.error e) s') := by
  change (p.bind f).Follows next s Q ↔ _
  induction p generalizing s with
  | pure a => exact Iff.rfl
  | throw e => exact Iff.rfl
  | call c k ih =>
    exact forall_congr' fun r => exists_congr fun s' => and_congr_right fun _ => ih r

theorem follows_tryCatch {p : Program C R E α} {h : E → Program C R E α}
    {Q : Except E α → σ → Prop} :
    (MonadExcept.tryCatch p h : Program C R E α).Follows next s Q ↔
      p.Follows next s (fun out s' => match out with
        | .ok a => Q (.ok a) s'
        | .error e => (h e).Follows next s' Q) := by
  change (p.tryCatch h).Follows next s Q ↔ _
  induction p generalizing s with
  | pure a => exact Iff.rfl
  | throw e => exact Iff.rfl
  | call c k ih =>
    exact forall_congr' fun r => exists_congr fun s' => and_congr_right fun _ => ih r

/-- The `finally` block runs from the stage at which the body ended; what it raises comes first. -/
theorem follows_ensuring {p : Program C R E α} {q : Program C R E Unit}
    {Q : Except E α → σ → Prop} :
    (p.ensuring q).Follows next s Q ↔ p.Follows next s (fun out s' =>
      q.Follows next s' fun last s'' => match last with
        | .ok _ => Q out s''
        | .error e => Q (.error e) s'') := by
  induction p generalizing s with
  | pure a =>
    refine (follows_bind (p := q) (f := fun _ => .pure a)).trans ?_
    refine iff_of_eq (congrArg (fun Q' => q.Follows next s Q') ?_)
    funext last s'
    cases last <;> rfl
  | throw e =>
    refine (follows_bind (p := q) (f := fun _ => .throw e)).trans ?_
    refine iff_of_eq (congrArg (fun Q' => q.Follows next s Q') ?_)
    funext last s'
    cases last <;> rfl
  | call c k ih =>
    exact forall_congr' fun r => exists_congr fun s' => and_congr_right fun _ => ih r

theorem follows_ite {b : Prop} [Decidable b] {p q : Program C R E α} {Q : Except E α → σ → Prop}
    (hp : b → p.Follows next s Q) (hq : ¬ b → q.Follows next s Q) :
    (if b then p else q).Follows next s Q := by
  split
  · next hb => exact hp hb
  · next hb => exact hq hb

/-- Commands that are in place and leave the stage as it is. -/
theorem Issues.follows {p : Program C R E α} {P : C → Prop} (hp : p.Issues P)
    (h : ∀ c, P c → ∀ r, next s ⟨c, r⟩ = some s) : p.Follows next s fun _ s' => s' = s := by
  induction p with
  | pure a => rfl
  | throw e => rfl
  | call c k ih => exact fun r => ⟨s, h c hp.1 r, ih r (hp.2 r)⟩

/-- A program over a larger interface follows a protocol there when it follows the one that is left
of it on its own interface. -/
theorem Follows.embed {next' : σ → Event D T E → Option σ} {f : C → D}
    {g : (c : C) → T (f c) → R c} {p : Program C R E α} {Q : Except E α → σ → Prop}
    (hp : p.Follows next s Q)
    (hnext : ∀ s c r, next' s ⟨f c, r⟩ = next s ⟨c, r.map (g c)⟩) :
    (p.embed f g).Follows next' s Q := by
  induction p generalizing s with
  | pure a => exact hp
  | throw e => exact hp
  | call c k ih =>
    intro r
    obtain ⟨s', hs', hk⟩ := hp (r.map (g c))
    exact ⟨s', (hnext s c r).trans hs', ih _ hk⟩

/-- **A run of a program that follows a protocol is a run of the protocol.** -/
theorem Follows.runs {p : Program C R E α} {Q : Except E α → σ → Prop} {start : σ}
    {t t' : List (Event C R E)} {out : Except E α} (hp : p.Follows next s Q)
    (ht : stageAfter next start t = some s) (h : Runs p t out t') :
    ∃ s', stageAfter next start t' = some s' ∧ Q out s' := by
  induction h generalizing s with
  | pure a t => exact ⟨s, ht, hp⟩
  | throw e t => exact ⟨s, ht, hp⟩
  | call r _ ih =>
    obtain ⟨s', hs', hk⟩ := hp r
    exact ih hk (by rw [stageAfter, ht, Option.bind_some, hs'])

end Program

end Async
