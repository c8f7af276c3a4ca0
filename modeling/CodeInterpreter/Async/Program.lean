import Mathlib.Data.List.Basic
import Mathlib.Tactic.Common

/-!
# Asynchronous programs over a command interface

An asynchronous function is a tree of awaits: it returns, it raises, or it issues a command and
goes on with whatever the environment answers, a reply of the command's own type or an exception
of type `E`. Commands are an arbitrary type `C` with a type of replies `R c` for each `c : C`.
The tree is inductive, so every run of a program is finite.

The event of an answered command is kept, newest first, in a *trace*. A *contract* says what a
program may assume of the answers and what it owes before each command, both in terms of the
trace so far. `Program.wp` is the weakest precondition of a program under a contract; it is
compositional for sequencing and for exception handling.

## Main definitions

* `Async.Program`, with its monad and exception structure; `Async.perform` issues one command.
* `Async.Event`, `Async.Contract`, `Async.Program.wp`.
* `Async.Program.Runs`: a complete run of a program, with the trace it leaves;
  `Async.Program.play` computes the one in a given environment.
* `Async.Program.actOn`: the run of a program whose commands act on a state.

## Main results

* `Async.Program.wp_bind`, `Async.Program.wp_tryCatch`, `Async.Program.wp_ensuring`: the rules for
  the combinators.
* `Async.Program.wp_of_extends`: a postcondition may use that the trace only grows.
* `Async.Program.wp_bind_of`, `Async.Program.wp_tryCatch_of`: the same two rules with an
  intermediate assertion.
* `Async.Program.wp_embed`: a contract over a larger interface.
* `Async.Program.Runs.of_wp`: what the weakest precondition says about a complete run.
* `Async.Program.runs_bind`, `Async.Program.runs_ensuring`: the parts of a run;
  `Async.Program.runs_bind_ok`, `Async.Program.runs_ensuring_ok`: of a run that returns;
  `Async.Program.Runs.bind`, `Async.Program.Runs.tryCatch`: a run from its parts.
* `Async.Program.actOn_bind_ok`, `Async.Program.actOn_tryCatch_error` and their like: the same for a
  run on a state.
* `Async.Program.returns_bind`, `Async.Program.raises_bind`: how a program ends, from its parts.
* `Async.Program.Runs.issued`: the events that a run adds.
-/

namespace Async

/-- A program that returns `a`, raises `e`, or issues the command `c` and continues with the
answer to it. -/
inductive Program (C : Type) (R : C → Type) (E : Type) (α : Type) : Type
  | pure (a : α)
  | throw (e : E)
  | call (c : C) (k : Except E (R c) → Program C R E α)

/-- A command together with the answer it got. -/
structure Event (C : Type) (R : C → Type) (E : Type) where
  cmd : C
  answer : Except E (R cmd)

variable {C : Type} {R : C → Type} {E α β : Type}

namespace Program

/-- Sequencing: an exception of the first program skips the second. -/
def bind : Program C R E α → (α → Program C R E β) → Program C R E β
  | .pure a, f => f a
  | .throw e, _ => .throw e
  | .call c k, f => .call c fun r => (k r).bind f

/-- `try p except e: h e`. -/
def tryCatch : Program C R E α → (E → Program C R E α) → Program C R E α
  | .pure a, _ => .pure a
  | .throw e, h => h e
  | .call c k, h => .call c fun r => (k r).tryCatch h

instance : Monad (Program C R E) where
  pure := .pure
  bind := bind

instance : MonadExceptOf E (Program C R E) where
  throw := .throw
  tryCatch := tryCatch

/-- `try: p finally: q`: an exception of `q` replaces the outcome of `p`. -/
def ensuring : Program C R E α → Program C R E Unit → Program C R E α
  | .pure a, q => q.bind fun _ => .pure a
  | .throw e, q => q.bind fun _ => .throw e
  | .call c k, q => .call c fun r => (k r).ensuring q

/-- The program over a larger interface, whose replies are translated back. -/
def embed {D : Type} {S : D → Type} (f : C → D) (g : (c : C) → S (f c) → R c) :
    Program C R E α → Program D S E α
  | .pure a => .pure a
  | .throw e => .throw e
  | .call c k => .call (f c) fun r => (k (r.map (g c))).embed f g

/-- A pure computation that may raise. -/
def ofExcept : Except E α → Program C R E α
  | .ok a => .pure a
  | .error e => .throw e

end Program

/-- Issue one command; its exception becomes the program's. -/
def perform (c : C) : Program C R E (R c) := .call c Program.ofExcept

/-- What a program may rely on and what it owes: `answers t c r` are the answers `r` to `c` that
can follow the trace `t`, and `allows t c` has to hold whenever `c` is issued after `t`. -/
structure Contract (C : Type) (R : C → Type) (E : Type) where
  allows : List (Event C R E) → C → Prop
  answers : List (Event C R E) → (c : C) → Except E (R c) → Prop

namespace Program

variable {S : Contract C R E}

/-- The weakest precondition of a program under a contract: every command it issues is allowed
and, whatever the admitted answers, it ends with an outcome and a trace satisfying `Q`. -/
def wp (S : Contract C R E) :
    Program C R E α → (Except E α → List (Event C R E) → Prop) → List (Event C R E) → Prop
  | .pure a, Q, t => Q (.ok a) t
  | .throw e, Q, t => Q (.error e) t
  | .call c k, Q, t => S.allows t c ∧ ∀ r, S.answers t c r → (k r).wp S Q (⟨c, r⟩ :: t)

@[simp] theorem wp_ofExcept (x : Except E α) (Q : Except E α → List (Event C R E) → Prop)
    (t : List (Event C R E)) : (ofExcept x : Program C R E α).wp S Q t ↔ Q x t := by
  cases x <;> exact Iff.rfl

@[simp] theorem wp_perform (c : C) (Q : Except E (R c) → List (Event C R E) → Prop)
    (t : List (Event C R E)) :
    (perform c : Program C R E (R c)).wp S Q t ↔
      S.allows t c ∧ ∀ r, S.answers t c r → Q r (⟨c, r⟩ :: t) := by
  simp only [perform, wp, wp_ofExcept]

@[simp] theorem wp_bind (p : Program C R E α) (f : α → Program C R E β)
    (Q : Except E β → List (Event C R E) → Prop) (t : List (Event C R E)) :
    (p >>= f).wp S Q t ↔ p.wp S (fun out t' => match out with
      | .ok a => (f a).wp S Q t'
      | .error e => Q (.error e) t') t := by
  change (p.bind f).wp S Q t ↔ _
  induction p generalizing t with
  | pure a => exact Iff.rfl
  | throw e => exact Iff.rfl
  | call c k ih =>
    exact and_congr_right fun _ => forall_congr' fun r => imp_congr_right fun _ => ih r _

@[simp] theorem wp_tryCatch (p : Program C R E α) (h : E → Program C R E α)
    (Q : Except E α → List (Event C R E) → Prop) (t : List (Event C R E)) :
    (MonadExcept.tryCatch p h : Program C R E α).wp S Q t ↔ p.wp S (fun out t' => match out with
      | .ok a => Q (.ok a) t'
      | .error e => (h e).wp S Q t') t := by
  change (p.tryCatch h).wp S Q t ↔ _
  induction p generalizing t with
  | pure a => exact Iff.rfl
  | throw e => exact Iff.rfl
  | call c k ih =>
    exact and_congr_right fun _ => forall_congr' fun r => imp_congr_right fun _ => ih r _

/-- The postcondition may use that the trace only grows. -/
theorem wp_of_extends {p : Program C R E α} {Q Q' : Except E α → List (Event C R E) → Prop}
    {t : List (Event C R E)} (hp : p.wp S Q t)
    (hQ : ∀ out t', t <:+ t' → Q out t' → Q' out t') : p.wp S Q' t := by
  induction p generalizing t with
  | pure a => exact hQ _ _ List.suffix_rfl hp
  | throw e => exact hQ _ _ List.suffix_rfl hp
  | call c k ih =>
    refine ⟨hp.1, fun r hr => ih r (hp.2 r hr) fun out t' ht' => hQ out t' ?_⟩
    exact (List.suffix_cons _ _).trans ht'

theorem wp_mono {p : Program C R E α} {Q Q' : Except E α → List (Event C R E) → Prop}
    {t : List (Event C R E)} (hp : p.wp S Q t) (hQ : ∀ out t', Q out t' → Q' out t') :
    p.wp S Q' t :=
  wp_of_extends hp fun out t' _ => hQ out t'

theorem wp_if_pos {b : Prop} [Decidable b] (hb : b) {p : Program C R E α}
    {Q : Except E α → List (Event C R E) → Prop} {t : List (Event C R E)} (hp : p.wp S Q t)
    (q : Program C R E α) : (if b then p else q).wp S Q t := by
  rw [if_pos hb]
  exact hp

/-- Sequencing, with an intermediate assertion. -/
theorem wp_bind_of {p : Program C R E α} {f : α → Program C R E β}
    {M : Except E α → List (Event C R E) → Prop} {Q : Except E β → List (Event C R E) → Prop}
    {t : List (Event C R E)} (hp : p.wp S M t)
    (hok : ∀ a t', t <:+ t' → M (.ok a) t' → (f a).wp S Q t')
    (herr : ∀ e t', t <:+ t' → M (.error e) t' → Q (.error e) t') : (p >>= f).wp S Q t := by
  rw [wp_bind]
  refine wp_of_extends hp fun out t' ht' h => ?_
  cases out with
  | ok a => exact hok a t' ht' h
  | error e => exact herr e t' ht' h

/-- Exception handling, with an intermediate assertion. -/
theorem wp_tryCatch_of {p : Program C R E α} {h : E → Program C R E α}
    {M Q : Except E α → List (Event C R E) → Prop} {t : List (Event C R E)} (hp : p.wp S M t)
    (hok : ∀ a t', t <:+ t' → M (.ok a) t' → Q (.ok a) t')
    (herr : ∀ e t', t <:+ t' → M (.error e) t' → (h e).wp S Q t') :
    (MonadExcept.tryCatch p h : Program C R E α).wp S Q t := by
  rw [wp_tryCatch]
  refine wp_of_extends hp fun out t' ht' hQ => ?_
  cases out with
  | ok a => exact hok a t' ht' hQ
  | error e => exact herr e t' ht' hQ

section

variable {D : Type} {T : D → Type} {f : C → D} {g : (c : C) → T (f c) → R c}

/-- An event over a larger interface, with its reply translated. -/
def liftEvent (f : C → D) (h : (c : C) → R c → T (f c)) (e : Event C R E) : Event D T E :=
  ⟨f e.cmd, e.answer.map (h e.cmd)⟩

/-- A program over a larger interface meets a contract there when it meets one of its own that owes
no less and relies on no more. -/
theorem wp_embed {S' : Contract D T E} (h : (c : C) → R c → T (f c)) (hg : ∀ c r, h c (g c r) = r)
    (hallows : ∀ t c, S.allows t c → S'.allows (t.map (liftEvent f h)) (f c))
    (hanswers : ∀ t c r, S'.answers (t.map (liftEvent f h)) (f c) r →
      S.answers t c (r.map (g c)))
    {p : Program C R E α} {Q : Except E α → List (Event C R E) → Prop} {t : List (Event C R E)}
    (hp : p.wp S Q t) :
    (p.embed f g).wp S' (fun out t' => ∃ t₀, t' = t₀.map (liftEvent f h) ∧ Q out t₀)
      (t.map (liftEvent f h)) := by
  induction p generalizing t with
  | pure a => exact ⟨t, rfl, hp⟩
  | throw e => exact ⟨t, rfl, hp⟩
  | call c k ih =>
    refine ⟨hallows t c hp.1, fun r hr => ?_⟩
    have hlift : ⟨f c, r⟩ :: t.map (liftEvent f h) =
        (⟨c, r.map (g c)⟩ :: t).map (liftEvent f h) := by
      cases r with
      | error e => rfl
      | ok a => simp [liftEvent, Except.map, hg]
    rw [hlift]
    exact ih _ (hp.2 _ (hanswers t c r hr))

end

/-- `Runs p t out t'`: started after the trace `t`, the program has a run that ends with the
outcome `out` and leaves the trace `t'`. -/
inductive Runs : Program C R E α → List (Event C R E) → Except E α → List (Event C R E) → Prop
  | pure (a : α) (t : List (Event C R E)) : Runs (.pure a) t (.ok a) t
  | throw (e : E) (t : List (Event C R E)) : Runs (.throw e) t (.error e) t
  | call {c : C} {k : Except E (R c) → Program C R E α} {t t' : List (Event C R E)}
      {out : Except E α} (r : Except E (R c)) (h : Runs (k r) (⟨c, r⟩ :: t) out t') :
      Runs (.call c k) t out t'

/-- The run in an environment that answers a command by the trace so far. -/
def play (env : List (Event C R E) → (c : C) → Except E (R c)) :
    Program C R E α → List (Event C R E) → Except E α × List (Event C R E)
  | .pure a, t => (.ok a, t)
  | .throw e, t => (.error e, t)
  | .call c k, t => (k (env t c)).play env (⟨c, env t c⟩ :: t)

theorem runs_play (env : List (Event C R E) → (c : C) → Except E (R c)) (p : Program C R E α)
    (t : List (Event C R E)) : Runs p t (p.play env t).1 (p.play env t).2 := by
  induction p generalizing t with
  | pure a => exact .pure a t
  | throw e => exact .throw e t
  | call c k ih => exact .call (env t c) (ih (env t c) _)

/-- A run only adds events to the trace. -/
theorem Runs.suffix {p : Program C R E α} {t t' : List (Event C R E)} {out : Except E α}
    (h : Runs p t out t') : t <:+ t' := by
  induction h with
  | pure => exact List.suffix_rfl
  | throw => exact List.suffix_rfl
  | call r h ih => exact (List.suffix_cons _ _).trans ih

/-- The answers of the events of `t'` that are newer than `t` are all admitted. -/
def Admitted (S : Contract C R E) (t t' : List (Event C R E)) : Prop :=
  ∀ (e : Event C R E) (older : List (Event C R E)), t <:+ older → e :: older <:+ t' →
    S.answers older e.cmd e.answer

/-- A complete run with admitted answers ends as the weakest precondition says. -/
theorem Runs.of_wp {p : Program C R E α} {Q : Except E α → List (Event C R E) → Prop}
    {t t' : List (Event C R E)} {out : Except E α} (h : Runs p t out t') (hp : p.wp S Q t)
    (hans : Admitted S t t') : Q out t' := by
  induction h with
  | pure => exact hp
  | throw => exact hp
  | @call c k t t' out r h ih =>
    have hr : S.answers t c r := hans ⟨c, r⟩ t List.suffix_rfl h.suffix
    exact ih (hp.2 r hr) fun e older hold => hans e older ((List.suffix_cons _ _).trans hold)

theorem admitted_refl (t : List (Event C R E)) : Admitted S t t := fun _ _ hold he =>
  absurd (Nat.le_trans he.length_le hold.length_le) (Nat.not_succ_le_self _)

/-- The run in an environment whose answers are all admitted. -/
theorem admitted_play {env : List (Event C R E) → (c : C) → Except E (R c)}
    (henv : ∀ t c, S.answers t c (env t c)) (p : Program C R E α) (t : List (Event C R E)) :
    Admitted S t (p.play env t).2 := by
  induction p generalizing t with
  | pure a => exact admitted_refl t
  | throw e => exact admitted_refl t
  | call c k ih =>
    intro e older hold he
    have hfirst : ⟨c, env t c⟩ :: t <:+ ((k (env t c)).play env (⟨c, env t c⟩ :: t)).2 :=
      (runs_play env _ _).suffix
    rcases List.suffix_cons_iff.mp (List.suffix_of_suffix_length_le hfirst he
      (Nat.succ_le_succ hold.length_le)) with heq | hlater
    · cases heq
      exact henv t c
    · exact ih _ _ e older hlater he

/-! ### Runs that return -/

theorem runs_perform {c : C} {out : Except E (R c)} {t t' : List (Event C R E)}
    (h : Runs (perform c) t out t') : t' = ⟨c, out⟩ :: t := by
  cases h with
  | call r h =>
    cases r with
    | ok a =>
      cases h
      rfl
    | error e =>
      cases h
      rfl

/-- A sequence returns when both of its parts do. -/
theorem runs_bind_ok {p : Program C R E α} {f : α → Program C R E β} {b : β}
    {t t' : List (Event C R E)} (h : Runs (p >>= f) t (.ok b) t') :
    ∃ a t₁, Runs p t (.ok a) t₁ ∧ Runs (f a) t₁ (.ok b) t' := by
  change Runs (p.bind f) t (.ok b) t' at h
  induction p generalizing t with
  | pure a => exact ⟨a, t, .pure a t, h⟩
  | throw e => cases h
  | call c k ih =>
    cases h with
    | call r h =>
      obtain ⟨a, t₁, hp, hf⟩ := ih r h
      exact ⟨a, t₁, .call r hp, hf⟩

/-- A program with a `finally` block returns what its body returns. -/
theorem runs_ensuring_ok {p : Program C R E α} {q : Program C R E Unit} {a : α}
    {t t' : List (Event C R E)} (h : Runs (p.ensuring q) t (.ok a) t') :
    ∃ t₁, Runs p t (.ok a) t₁ ∧ Runs q t₁ (.ok ()) t' := by
  induction p generalizing t with
  | pure b =>
    obtain ⟨u, t₁, hq, hb⟩ := runs_bind_ok h
    cases hb
    exact ⟨t, .pure a t, hq⟩
  | throw e =>
    obtain ⟨u, t₁, hq, hb⟩ := runs_bind_ok h
    cases hb
  | call c k ih =>
    cases h with
    | call r h =>
      obtain ⟨t₁, hp, hq⟩ := ih r h
      exact ⟨t₁, .call r hp, hq⟩

/-! ### The parts of a run -/

theorem runs_bind {p : Program C R E α} {f : α → Program C R E β} {out : Except E β}
    {t t' : List (Event C R E)} (h : Runs (p >>= f) t out t') :
    (∃ a t₁, Runs p t (.ok a) t₁ ∧ Runs (f a) t₁ out t') ∨
      ∃ e, out = .error e ∧ Runs p t (.error e) t' := by
  change Runs (p.bind f) t out t' at h
  induction p generalizing t with
  | pure a => exact .inl ⟨a, t, .pure a t, h⟩
  | throw e =>
    cases h
    exact .inr ⟨e, rfl, .throw e _⟩
  | call c k ih =>
    cases h with
    | call r h =>
      rcases ih r h with ⟨a, t₁, hp, hf⟩ | ⟨e, rfl, hp⟩
      · exact .inl ⟨a, t₁, .call r hp, hf⟩
      · exact .inr ⟨e, rfl, .call r hp⟩

theorem runs_ite {b : Prop} [Decidable b] {p q : Program C R E α} {out : Except E α}
    {t t' : List (Event C R E)} (h : Runs (if b then p else q) t out t') :
    (b ∧ Runs p t out t') ∨ (¬ b ∧ Runs q t out t') := by
  by_cases hb : b
  · rw [if_pos hb] at h
    exact .inl ⟨hb, h⟩
  · rw [if_neg hb] at h
    exact .inr ⟨hb, h⟩

theorem runs_throw {e : E} {out : Except E α} {t t' : List (Event C R E)}
    (h : Runs (MonadExcept.throw e : Program C R E α) t out t') : out = .error e ∧ t' = t := by
  cases h
  exact ⟨rfl, rfl⟩

theorem runs_pure {a : α} {out : Except E α} {t t' : List (Event C R E)}
    (h : Runs (Pure.pure a : Program C R E α) t out t') : out = .ok a ∧ t' = t := by
  cases h
  exact ⟨rfl, rfl⟩

theorem runs_ofExcept {x : Except E α} {out : Except E α} {t t' : List (Event C R E)}
    (h : Runs (ofExcept x) t out t') : out = x ∧ t' = t := by
  cases x with
  | ok a =>
    cases h
    exact ⟨rfl, rfl⟩
  | error e =>
    cases h
    exact ⟨rfl, rfl⟩

/-- An exception is handled after the part of the body that was run. -/
theorem runs_tryCatch {p : Program C R E α} {f : E → Program C R E α} {out : Except E α}
    {t t' : List (Event C R E)} (h : Runs (MonadExcept.tryCatch p f) t out t') :
    (∃ a, out = .ok a ∧ Runs p t (.ok a) t') ∨
      ∃ e t₁, Runs p t (.error e) t₁ ∧ Runs (f e) t₁ out t' := by
  change Runs (p.tryCatch f) t out t' at h
  induction p generalizing t with
  | pure a =>
    cases h
    exact .inl ⟨a, rfl, .pure a _⟩
  | throw e => exact .inr ⟨e, t, .throw e t, h⟩
  | call c k ih =>
    cases h with
    | call r h =>
      rcases ih r h with ⟨a, rfl, hp⟩ | ⟨e, t₁, hp, hf⟩
      · exact .inl ⟨a, rfl, .call r hp⟩
      · exact .inr ⟨e, t₁, .call r hp, hf⟩

/-- The `finally` block runs however the body ends. -/
theorem runs_ensuring {p : Program C R E α} {q : Program C R E Unit} {out : Except E α}
    {t t' : List (Event C R E)} (h : Runs (p.ensuring q) t out t') :
    ∃ out₁ t₁ u, Runs p t out₁ t₁ ∧ Runs q t₁ u t' := by
  induction p generalizing t with
  | pure a =>
    rcases runs_bind h with ⟨u, t₁, hq, hrest⟩ | ⟨e, -, hq⟩
    · cases hrest
      exact ⟨.ok a, t, .ok u, .pure a t, hq⟩
    · exact ⟨.ok a, t, .error e, .pure a t, hq⟩
  | throw e =>
    rcases runs_bind h with ⟨u, t₁, hq, hrest⟩ | ⟨e', -, hq⟩
    · cases hrest
      exact ⟨.error e, t, .ok u, .throw e t, hq⟩
    · exact ⟨.error e, t, .error e', .throw e t, hq⟩
  | call c k ih =>
    cases h with
    | call r h =>
      obtain ⟨out₁, t₁, u, hp, hq⟩ := ih r h
      exact ⟨out₁, t₁, u, .call r hp, hq⟩

/-! ### Runs from their parts -/

theorem Runs.perform (c : C) (r : Except E (R c)) (t : List (Event C R E)) :
    Runs (perform c) t r (⟨c, r⟩ :: t) := by
  refine .call r ?_
  cases r with
  | ok a => exact .pure a _
  | error e => exact .throw e _

theorem Runs.bind {p : Program C R E α} {f : α → Program C R E β} {a : α} {out : Except E β}
    {t t₁ t' : List (Event C R E)} (hp : Runs p t (.ok a) t₁) (hf : Runs (f a) t₁ out t') :
    Runs (p >>= f) t out t' := by
  change Runs (p.bind f) t out t'
  induction p generalizing t with
  | pure b =>
    cases hp
    exact hf
  | throw e => cases hp
  | call c k ih =>
    cases hp with
    | call r hp => exact .call r (ih r hp)

theorem Runs.bind_error {p : Program C R E α} (f : α → Program C R E β) {e : E}
    {t t' : List (Event C R E)} (hp : Runs p t (.error e) t') :
    Runs (p >>= f) t (.error e) t' := by
  change Runs (p.bind f) t (.error e) t'
  induction p generalizing t with
  | pure b => cases hp
  | throw e =>
    cases hp
    exact .throw e _
  | call c k ih =>
    cases hp with
    | call r hp => exact .call r (ih r hp)

theorem Runs.tryCatch {p : Program C R E α} (f : E → Program C R E α) {a : α}
    {t t' : List (Event C R E)} (hp : Runs p t (.ok a) t') :
    Runs (MonadExcept.tryCatch p f) t (.ok a) t' := by
  change Runs (p.tryCatch f) t (.ok a) t'
  induction p generalizing t with
  | pure b =>
    cases hp
    exact .pure a _
  | throw e => cases hp
  | call c k ih =>
    cases hp with
    | call r hp => exact .call r (ih r hp)

theorem Runs.tryCatch_error {p : Program C R E α} {f : E → Program C R E α} {e : E}
    {out : Except E α} {t t₁ t' : List (Event C R E)} (hp : Runs p t (.error e) t₁)
    (hf : Runs (f e) t₁ out t') : Runs (MonadExcept.tryCatch p f) t out t' := by
  change Runs (p.tryCatch f) t out t'
  induction p generalizing t with
  | pure b => cases hp
  | throw e =>
    cases hp
    exact hf
  | call c k ih =>
    cases hp with
    | call r hp => exact .call r (ih r hp)

/-! ### Runs on a state -/

section

variable {σ : Type} (act : σ → (c : C) → σ × Except E (R c))

/-- The run of a program whose commands act on a state. -/
def actOn : σ → Program C R E α → σ × Except E α
  | s, .pure a => (s, .ok a)
  | s, .throw e => (s, .error e)
  | s, .call c k => actOn (act s c).1 (k (act s c).2)

@[simp] theorem actOn_pure (s : σ) (a : α) :
    actOn act s (Pure.pure a : Program C R E α) = (s, .ok a) := rfl

@[simp] theorem actOn_perform (s : σ) (c : C) :
    actOn act s (perform c : Program C R E (R c)) = act s c := by
  cases h : act s c with
  | mk s' r => cases r <;> simp only [perform, actOn, h, ofExcept]

variable {act} {s s' : σ} {a : α} {e : E} {p : Program C R E α}

theorem actOn_bind_ok (h : actOn act s p = (s', .ok a)) (f : α → Program C R E β) :
    actOn act s (p >>= f) = actOn act s' (f a) := by
  change actOn act s (p.bind f) = _
  induction p generalizing s with
  | pure b =>
    cases h
    rfl
  | throw e => cases h
  | call c k ih => exact ih _ h

theorem actOn_bind_error (h : actOn act s p = (s', .error e)) (f : α → Program C R E β) :
    actOn act s (p >>= f) = (s', .error e) := by
  change actOn act s (p.bind f) = _
  induction p generalizing s with
  | pure b => cases h
  | throw e =>
    cases h
    rfl
  | call c k ih => exact ih _ h

theorem actOn_tryCatch_ok (h : actOn act s p = (s', .ok a)) (f : E → Program C R E α) :
    actOn act s (MonadExcept.tryCatch p f) = (s', .ok a) := by
  change actOn act s (p.tryCatch f) = _
  induction p generalizing s with
  | pure b => exact h
  | throw e => cases h
  | call c k ih => exact ih _ h

theorem actOn_tryCatch_error (h : actOn act s p = (s', .error e)) (f : E → Program C R E α) :
    actOn act s (MonadExcept.tryCatch p f) = actOn act s' (f e) := by
  change actOn act s (p.tryCatch f) = _
  induction p generalizing s with
  | pure b => cases h
  | throw e =>
    cases h
    rfl
  | call c k ih => exact ih _ h

end

/-! ### Programs that return and programs that raise -/

/-- Under the contract the program returns, with a value that satisfies `P`. -/
def Returns (S : Contract C R E) (p : Program C R E α) (P : α → Prop) : Prop :=
  ∀ t, p.wp S (fun out _ => ∃ a, out = .ok a ∧ P a) t

/-- Under the contract the program raises. -/
def Raises (S : Contract C R E) (p : Program C R E α) : Prop :=
  ∀ t, p.wp S (fun out _ => ∃ e, out = .error e) t

/-- `finally`: the block runs after every outcome, and its exception replaces the outcome. -/
theorem wp_ensuring (p : Program C R E α) (q : Program C R E Unit)
    (Q : Except E α → List (Event C R E) → Prop) (t : List (Event C R E)) :
    (p.ensuring q).wp S Q t ↔ p.wp S (fun out t' => q.wp S (fun last t'' => match last with
      | .ok _ => Q out t''
      | .error e => Q (.error e) t'') t') t := by
  induction p generalizing t with
  | pure a =>
    refine (wp_bind q (fun _ => .pure a) Q t).trans ?_
    refine iff_of_eq (congrArg (fun Q' => q.wp S Q' t) ?_)
    funext last t'
    cases last <;> rfl
  | throw e =>
    refine (wp_bind q (fun _ => .throw e) Q t).trans ?_
    refine iff_of_eq (congrArg (fun Q' => q.wp S Q' t) ?_)
    funext last t'
    cases last <;> rfl
  | call c k ih =>
    exact and_congr_right fun _ => forall_congr' fun r => imp_congr_right fun _ => ih r _

/-- `finally` with a program that returns keeps the outcome. -/
theorem wp_ensuring_of {p : Program C R E α} {q : Program C R E Unit}
    {P : Except E α → Prop} {t : List (Event C R E)} (hp : p.wp S (fun out _ => P out) t)
    (hq : Returns S q fun _ => True) : (p.ensuring q).wp S (fun out _ => P out) t := by
  induction p generalizing t with
  | pure a =>
    refine wp_bind_of (f := fun _ => .pure a) (hq t) (fun _ _ _ _ => hp) ?_
    rintro e t' - ⟨u, hu, -⟩
    cases hu
  | throw e =>
    refine wp_bind_of (f := fun _ => .throw e) (hq t) (fun _ _ _ _ => hp) ?_
    rintro e t' - ⟨u, hu, -⟩
    cases hu
  | call c k ih => exact ⟨hp.1, fun r hr => ih r (hp.2 r hr)⟩

section

variable {P : α → Prop} {Q : β → Prop} {p : Program C R E α} {f : α → Program C R E β}

theorem returns_pure {a : α} (ha : P a) : Returns S (Pure.pure a : Program C R E α) P :=
  fun _ => ⟨a, rfl, ha⟩

theorem raises_throw (e : E) : Raises S (MonadExcept.throw e : Program C R E α) :=
  fun _ => ⟨e, rfl⟩

theorem returns_ofExcept {x : Except E α} {a : α} (hx : x = .ok a) (ha : P a) :
    Returns S (ofExcept x : Program C R E α) P := by
  subst hx
  exact returns_pure ha

theorem raises_ofExcept {x : Except E α} {e : E} (hx : x = .error e) :
    Raises S (ofExcept x : Program C R E α) := by
  subst hx
  exact raises_throw e

theorem returns_bind (hp : Returns S p P) (hf : ∀ a, P a → Returns S (f a) Q) :
    Returns S (p >>= f) Q := by
  intro t
  refine wp_bind_of (hp t) ?_ ?_
  · rintro a t' - ⟨a', ha, hP⟩
    cases ha
    exact hf a hP t'
  · rintro e t' - ⟨a, ha, -⟩
    cases ha

theorem raises_bind (hp : Returns S p P) (hf : ∀ a, P a → Raises S (f a)) :
    Raises S (p >>= f) := by
  intro t
  refine wp_bind_of (hp t) ?_ ?_
  · rintro a t' - ⟨a', ha, hP⟩
    cases ha
    exact hf a hP t'
  · rintro e t' - ⟨a, ha, -⟩
    cases ha

theorem raises_bind_left (hp : Raises S p) : Raises S (p >>= f) := by
  intro t
  refine wp_bind_of (hp t) ?_ fun e t' _ _ => ⟨e, rfl⟩
  rintro a t' - ⟨e, he⟩
  cases he

theorem returns_if_pos {b : Prop} [Decidable b] (hb : b) (hp : Returns S p P)
    (q : Program C R E α) : Returns S (if b then p else q) P := by
  rw [if_pos hb]
  exact hp

theorem raises_if_pos {b : Prop} [Decidable b] (hb : b) (hp : Raises S p)
    (q : Program C R E α) : Raises S (if b then p else q) := by
  rw [if_pos hb]
  exact hp

theorem returns_tryCatch {h : E → Program C R E α} (hp : Returns S p P) :
    Returns S (MonadExcept.tryCatch p h) P := by
  intro t
  refine wp_tryCatch_of (hp t) (fun a t' _ h => h) ?_
  rintro e t' - ⟨a, ha, -⟩
  cases ha

theorem returns_ensuring {q : Program C R E Unit} (hp : Returns S p P)
    (hq : Returns S q fun _ => True) : Returns S (p.ensuring q) P := fun t =>
  wp_ensuring_of (hp t) hq

theorem raises_ensuring {q : Program C R E Unit} (hp : Raises S p)
    (hq : Returns S q fun _ => True) : Raises S (p.ensuring q) := fun t =>
  wp_ensuring_of (hp t) hq

end

/-! ### The commands of a program -/

/-- Every command that the program may issue satisfies `P`. -/
def Issues (P : C → Prop) : Program C R E α → Prop
  | .pure _ => True
  | .throw _ => True
  | .call c k => P c ∧ ∀ r, (k r).Issues P

variable {P : C → Prop}

theorem Issues.mono {Q : C → Prop} {p : Program C R E α} (hp : p.Issues P)
    (h : ∀ c, P c → Q c) : p.Issues Q := by
  induction p with
  | pure a => exact trivial
  | throw e => exact trivial
  | call c k ih => exact ⟨h c hp.1, fun r => ih r (hp.2 r)⟩

theorem issues_pure (a : α) : (Pure.pure a : Program C R E α).Issues P := trivial

theorem issues_throw (e : E) : (MonadExcept.throw e : Program C R E α).Issues P := trivial

theorem issues_ofExcept (x : Except E α) : (ofExcept x : Program C R E α).Issues P := by
  cases x <;> exact trivial

theorem issues_perform {c : C} (hc : P c) : (perform c : Program C R E (R c)).Issues P :=
  ⟨hc, issues_ofExcept⟩

theorem issues_bind {p : Program C R E α} {f : α → Program C R E β} (hp : p.Issues P)
    (hf : ∀ a, (f a).Issues P) : (p >>= f).Issues P := by
  change (p.bind f).Issues P
  induction p with
  | pure a => exact hf a
  | throw e => exact trivial
  | call c k ih => exact ⟨hp.1, fun r => ih r (hp.2 r)⟩

theorem issues_tryCatch {p : Program C R E α} {h : E → Program C R E α} (hp : p.Issues P)
    (hh : ∀ e, (h e).Issues P) : (MonadExcept.tryCatch p h : Program C R E α).Issues P := by
  change (p.tryCatch h).Issues P
  induction p with
  | pure a => exact trivial
  | throw e => exact hh e
  | call c k ih => exact ⟨hp.1, fun r => ih r (hp.2 r)⟩

theorem issues_ite {b : Prop} [Decidable b] {p q : Program C R E α} (hp : p.Issues P)
    (hq : q.Issues P) : (if b then p else q).Issues P := by
  split
  · exact hp
  · exact hq

/-- What every command of a program keeps holds at its end. -/
theorem wp_of_issues {I : List (Event C R E) → Prop} {p : Program C R E α}
    {t : List (Event C R E)} (hp : p.Issues P) (hallows : ∀ t c, S.allows t c)
    (hkeep : ∀ t c r, P c → I t → I (⟨c, r⟩ :: t)) (ht : I t) : p.wp S (fun _ t' => I t') t := by
  induction p generalizing t with
  | pure a => exact ht
  | throw e => exact ht
  | call c k ih => exact ⟨hallows t c, fun r _ => ih r (hp.2 r) (hkeep t c r hp.1 ht)⟩

/-- A program may be run under a contract that allows all its commands. -/
theorem Issues.wp_any {p : Program C R E α} (hp : p.Issues P) (hallows : ∀ t c, P c → S.allows t c)
    (t : List (Event C R E)) : p.wp S (fun _ _ => True) t := by
  induction p generalizing t with
  | pure a => exact trivial
  | throw e => exact trivial
  | call c k ih => exact ⟨hallows t c hp.1, fun r _ => ih r (hp.2 r) _⟩

/-- The events that a run adds are those of commands that the program may issue. -/
theorem Runs.issued {p : Program C R E α} {t t' : List (Event C R E)} {out : Except E α}
    (h : Runs p t out t') (hp : p.Issues P) : ∃ new, t' = new ++ t ∧ ∀ e ∈ new, P e.cmd := by
  induction h with
  | pure => exact ⟨[], rfl, fun _ he => absurd he List.not_mem_nil⟩
  | throw => exact ⟨[], rfl, fun _ he => absurd he List.not_mem_nil⟩
  | @call c k t t' out r h ih =>
    obtain ⟨new, rfl, hnew⟩ := ih (hp.2 r)
    refine ⟨new ++ [⟨c, r⟩], by simp, fun e he => ?_⟩
    rcases List.mem_append.mp he with he | he
    · exact hnew e he
    · rw [List.mem_singleton.mp he]
      exact hp.1

end Program

end Async
