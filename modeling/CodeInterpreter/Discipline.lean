import CodeInterpreter.System

/-!
# What each program may do, and when

One discipline for all programs of the system. It says, for each command, which roles issue it
and what must be in the trace of the process by then: an entry is acknowledged and deleted only
after the result of its job was written, a task is created only for a delivered entry, a job is
executed only after its cancellation flag was seen absent, a record is written only right after it
was read, and so on. It also fixes the order of the two writes of `store_terminal`: the result
first, then, with nothing in between, the read and the write of the record.

Every program keeps the discipline (`Worker.Kept`, `Api.Kept`). Those are the only places where
the programs are taken apart; what the invariants of the system need to know about them is the
discipline.

## Main definitions

* `midStore`: a `store_terminal` between its write of the result and its write of the record.
* `Permits`, `discipline`.

## Main results

* `keeps_issue`, `keeps_bind`, `keeps_tryCatch`: the rules by which a program is shown to keep it.
-/

namespace CodeInterpreter

open Async

/-! ### Reading a trace -/

/-- The record that a `GET` returned. -/
def readOf : Event Cmd Reply Exc → Option (Str × JobRecord)
  | ⟨.getRecord jobId, .ok r⟩ => Option.map (fun record => (jobId, record)) (id r : Option JobRecord)
  | _ => none

/-- The result that was written under a result key. -/
def storedOf : Event Cmd Reply Exc → Option (Str × ExecutionResult)
  | ⟨.setResult jobId result, .ok _⟩ => some (jobId, result)
  | _ => none

/-- The deliveries of an `XREADGROUP`. -/
def readsOf : Event Cmd Reply Exc → List Delivery
  | ⟨.xreadgroup _ _, .ok ds⟩ => ds
  | _ => []

/-- The deliveries of an `XCLAIM`, each with the claimed id. -/
def claimsOf : Event Cmd Reply Exc → List (ℕ × Delivery)
  | ⟨.xclaim _ _ id, .ok ds⟩ => List.map (fun x => (id, x)) ds
  | _ => []

/-- The delivery counts that an `XPENDING` reported. -/
def shownBy : Event Cmd Reply Exc → List (ℕ × ℕ)
  | ⟨.xpendingRange _ _, .ok ps⟩ => ps
  | _ => []

/-- The result that a `store_terminal` has written while it has not written the record yet: the
last event is the write of the result, or it is the read of the record right after it. -/
def midStore : Trace → Option (Str × ExecutionResult)
  | [] => none
  | e :: t =>
    (storedOf e).or
      ((readOf e).bind fun x => (t.head?.bind storedOf).filter fun y => x.1 = y.1)

/-- A result of the job was written. -/
def StoredIn (t : Trace) (jobId : Str) : Prop := ∃ e ∈ t, ∃ r, storedOf e = some (jobId, r)

/-- Nothing was enqueued. -/
def Unqueued (t : Trace) : Prop := ∀ e ∈ t, ∀ payload record, e.cmd ≠ .enqueue payload record

/-- The message was made from a delivery in the trace: one of an `XREADGROUP` with the count one,
or one of an `XCLAIM` with the count that an earlier `XPENDING` reported. -/
def Fetched (t : Trace) (m : QueueMessage) : Prop :=
  (∃ e ∈ t, ∃ x ∈ readsOf e, m = Worker.Delivery.toMessage x 1) ∨
  ∃ e older, e :: older <:+ t ∧ ∃ x ∈ claimsOf e, ∃ e' ∈ older, ∃ n,
    (x.1, n) ∈ shownBy e' ∧ m = Worker.Delivery.toMessage x.2 n

theorem storedOf_eq_some {e : Event Cmd Reply Exc} {jobId : Str} {r : ExecutionResult}
    (h : storedOf e = some (jobId, r)) : e = ⟨.setResult jobId r, .ok ()⟩ := by
  obtain ⟨c, a⟩ := e
  cases c with
  | setResult j x =>
    cases a with
    | error e => cases h
    | ok a =>
      cases h
      rfl
  | _ => cases h

theorem readOf_eq_some {e : Event Cmd Reply Exc} {jobId : Str} {record : JobRecord}
    (h : readOf e = some (jobId, record)) : e = ⟨.getRecord jobId, .ok (some record)⟩ := by
  obtain ⟨c, a⟩ := e
  cases c with
  | getRecord j =>
    cases a with
    | error e => cases h
    | ok a =>
      cases a with
      | none => cases h
      | some x =>
        cases h
        rfl
  | _ => cases h

theorem midStore_head {t : Trace} (ht : midStore t = none) : t.head?.bind storedOf = none := by
  cases t with
  | nil => rfl
  | cons e t => exact (Option.or_eq_none_iff.mp ht).1

theorem midStore_cons {e : Event Cmd Reply Exc} {t : Trace} (ht : midStore t = none)
    (he : storedOf e = none) : midStore (e :: t) = none := by
  simp [midStore, he, midStore_head ht]

/-- The read of the record after the write of the result is part of the store. -/
theorem midStore_read {t : Trace} {jobId : Str} {r : ExecutionResult} (old : JobRecord)
    (h : t.head?.bind storedOf = some (jobId, r)) :
    midStore (⟨.getRecord jobId, .ok (some old)⟩ :: t) = some (jobId, r) := by
  simp only [midStore, storedOf, readOf, Option.none_or, Option.map_some, Option.bind_some,
    id_eq, h, Option.filter_some, decide_true, if_true]

theorem StoredIn.mono {t t' : Trace} {jobId : Str} (h : StoredIn t jobId) (ht : t <:+ t') :
    StoredIn t' jobId := by
  obtain ⟨e, he, h⟩ := h
  exact ⟨e, ht.subset he, h⟩

theorem Fetched.mono {t t' : Trace} {m : QueueMessage} (h : Fetched t m) (ht : t <:+ t') :
    Fetched t' m := by
  rcases h with ⟨e, he, h⟩ | ⟨e, older, hs, h⟩
  · exact .inl ⟨e, ht.subset he, h⟩
  · exact .inr ⟨e, older, hs.trans ht, h⟩

/-! ### The discipline -/

variable (d : Deployment)

/-- The process is a run of `_process` on an entry of the job. -/
def HandlesJob (role : Role) (jobId : Str) : Prop :=
  ∃ w m, role = .delivery w m ∧ Worker.jobIdOf d.py m.payload = .ok jobId

/-- The process is a run of `_process` on the entry, and its job has a result or no id. -/
def Finished (role : Role) (t : Trace) (id : ℕ) : Prop :=
  ∃ w m jobId, role = .delivery w m ∧ m.msgId = id ∧
    Worker.jobIdOf d.py m.payload = .ok jobId ∧ (jobId = [] ∨ StoredIn t jobId)

/-- The command that asks for the slot of a submission. -/
def acquireCmd (sub : Api.Submission) : Cmd :=
  .acquire sub.principal.userId sub.jobId
    (Api.concurrencyLimitForTier d.app sub.principal.tier) (Api.slotTtlMs d.app)

/-- The process may release the slot of the job: a worker after it stored a result, a `DELETE` of
its own job, or the process that handles the submission or its connection. -/
def Releases (role : Role) (t : Trace) (userId jobId : Str) : Prop :=
  match role with
  | .delivery _ m =>
    Worker.jobIdOf d.py m.payload = .ok jobId ∧ (jobId = [] ∨ StoredIn t jobId)
  | .deleteJob p j =>
    jobId = j ∧ userId = p.userId ∧
      ∃ e ∈ t, ∃ old, readOf e = some (j, old) ∧ old.userId = p.userId
  | .submission _ | .stream _ _ | .streamEnd _ => True
  | _ => False

/-- What an answer of a job route is based on. -/
def Answers (role : Role) (t : Trace) : Response → Prop
  | .jobRecord record =>
    ∃ p j, role = .getJob p j ∧ (∃ e ∈ t, readOf e = some (j, record)) ∧
      record.userId = p.userId
  | .cancelled jobId =>
    ∃ p, role = .deleteJob p jobId ∧ ∃ record, ⟨.cancelMulti jobId record, .ok ()⟩ ∈ t
  | _ => True

/-- What a command requires of the role and of the trace of the process that issues it. -/
def Permits (role : Role) (t : Trace) : Cmd → Prop
  | .xack id | .xdel id => Finished d role t id
  | .createTask m => (∃ w, role = .consumer w) ∧ Fetched t m
  | .existsCancel jobId => HandlesJob d role jobId
  | .execute _ jobId => HandlesJob d role jobId ∧ ⟨.existsCancel jobId, .ok false⟩ ∈ t
  | .setResult jobId _ => HandlesJob d role jobId
  | .setRecord jobId record =>
    HandlesJob d role jobId ∧ ∃ old, t.head?.bind readOf = some (jobId, old) ∧
      ((midStore t = none ∧ ∃ w, record = Worker.runningFields w old) ∨
        ∃ r w, midStore t = some (jobId, r) ∧ record = Worker.terminalFields r w old)
  | .cancelMulti jobId record =>
    ∃ p old, role = .deleteJob p jobId ∧ t.head?.bind readOf = some (jobId, old) ∧
      old.userId = p.userId ∧ ¬ old.status.Terminal ∧ record = Api.killedRecord old
  | .acquire userId jobId limit ttl =>
    ∃ sub, submissionOf d role = some sub ∧ Cmd.acquire userId jobId limit ttl = acquireCmd d sub
  | .enqueue payload record =>
    ∃ sub, submissionOf d role = some sub ∧ payload = sub.payload ∧ record = sub.record ∧
      Unqueued t ∧ ∃ a : Except Exc Bool, a ≠ .ok false ∧ ⟨acquireCmd d sub, a⟩ ∈ t
  | .zrem userId jobId => Releases d role t userId jobId
  | .respond r => Answers role t r
  | .xreadgroup _ _ | .xclaim _ _ _ | .xpendingRange _ _ => ∃ w, role = .consumer w
  | _ => True

/-- The order of `store_terminal`: after the write of the result the record is read, and then it
is written. -/
def StoreOrder (t : Trace) (c : Cmd) : Prop :=
  (∀ jobId r, t.head?.bind storedOf = some (jobId, r) → c = .getRecord jobId) ∧
  ∀ jobId r old, midStore t = some (jobId, r) → t.head?.bind readOf = some (jobId, old) →
    ∃ record, c = .setRecord jobId record

/-- The discipline of all programs. -/
def discipline : Discipline Cmd Reply Exc Role where
  allows role t c := StoreOrder t c ∧ Permits d role t c
  ends _ t := midStore t = none

/-- The contract that the discipline gives a process of the given role. -/
abbrev contractOf (role : Role) : Contract Cmd Reply Exc := (system d).contract (discipline d) role

theorem storeOrder_of_clear {t : Trace} (ht : midStore t = none) (c : Cmd) : StoreOrder t c := by
  constructor
  · intro jobId r h
    rw [midStore_head ht] at h
    cases h
  · intro jobId r old h
    rw [ht] at h
    cases h

/-! ### Rules for single programs -/

variable {d} {role : Role} {t : Trace} {α β : Type}

/-- The program keeps the discipline of the role and ends with no store in progress, with an
outcome and a trace that satisfy `Q`. -/
def Keeps (d : Deployment) (role : Role) (p : Prog α) (t : Trace)
    (Q : Except Exc α → Trace → Prop) : Prop :=
  p.wp (contractOf d role) (fun out t' => midStore t' = none ∧ Q out t') t

/-- Nothing is claimed of the end beyond that no store is in progress. -/
abbrev anyEnd : Except Exc α → Trace → Prop := fun _ _ => True

theorem Keeps.kept {p : Prog Unit} {Q : Except Exc Unit → Trace → Prop}
    (h : Keeps d role p t Q) : (system d).Kept (discipline d) role t p :=
  Program.wp_mono h fun _ _ h' => h'.1

theorem Keeps.mono {p : Prog α} {Q Q' : Except Exc α → Trace → Prop} (h : Keeps d role p t Q)
    (hQ : ∀ out t', t <:+ t' → Q out t' → Q' out t') : Keeps d role p t Q' :=
  Program.wp_of_extends h fun out t' ht' h' => ⟨h'.1, hQ out t' ht' h'.2⟩

theorem keeps_pure (ht : midStore t = none) {a : α} {Q : Except Exc α → Trace → Prop}
    (hQ : Q (.ok a) t) : Keeps d role (pure a) t Q := ⟨ht, hQ⟩

theorem keeps_throw (ht : midStore t = none) {e : Exc} {Q : Except Exc α → Trace → Prop}
    (hQ : Q (.error e) t) : Keeps d role (throw e) t Q := ⟨ht, hQ⟩

theorem keeps_ofExcept (ht : midStore t = none) {x : Except Exc α}
    {Q : Except Exc α → Trace → Prop} (hQ : Q x t) : Keeps d role (Program.ofExcept x) t Q := by
  rw [Keeps, Program.wp_ofExcept]
  exact ⟨ht, hQ⟩

/-- A command other than the write of a result. -/
theorem keeps_issue (ht : midStore t = none) {c : Cmd} {Q : Except Exc (Reply c) → Trace → Prop}
    (hc : ∀ r, storedOf ⟨c, r⟩ = none) (hp : Permits d role t c) (hQ : ∀ r, Q r (⟨c, r⟩ :: t)) :
    Keeps d role (issue c) t Q := by
  rw [Keeps, Program.wp_perform]
  refine ⟨⟨storeOrder_of_clear ht c, hp⟩, fun r _ => ⟨midStore_cons ht (hc r), hQ r⟩⟩

/-- A command that opens or closes a store, or stands inside one. -/
theorem keeps_issue_bind {c : Cmd} {f : Reply c → Prog β} {Q : Except Exc β → Trace → Prop}
    (hs : StoreOrder t c) (hp : Permits d role t c)
    (hok : ∀ a, Keeps d role (f a) (⟨c, .ok a⟩ :: t) Q)
    (herr : ∀ e, midStore (⟨c, .error e⟩ :: t) = none ∧ Q (.error e) (⟨c, .error e⟩ :: t)) :
    Keeps d role (issue c >>= f) t Q := by
  rw [Keeps, Program.wp_bind, Program.wp_perform]
  refine ⟨⟨hs, hp⟩, fun r _ => ?_⟩
  cases r with
  | ok a => exact hok a
  | error e => exact herr e

theorem keeps_bind {p : Prog α} {f : α → Prog β} {M : Except Exc α → Trace → Prop}
    {Q : Except Exc β → Trace → Prop} (hp : Keeps d role p t M)
    (hok : ∀ a t', t <:+ t' → midStore t' = none → M (.ok a) t' → Keeps d role (f a) t' Q)
    (herr : ∀ e t', t <:+ t' → M (.error e) t' → Q (.error e) t') :
    Keeps d role (p >>= f) t Q :=
  Program.wp_bind_of hp (fun a t' ht' h => hok a t' ht' h.1 h.2)
    fun e t' ht' h => ⟨h.1, herr e t' ht' h.2⟩

theorem keeps_tryCatch {p : Prog α} {h : Exc → Prog α} {M Q : Except Exc α → Trace → Prop}
    (hp : Keeps d role p t M) (hok : ∀ a t', t <:+ t' → M (.ok a) t' → Q (.ok a) t')
    (herr : ∀ e t', t <:+ t' → midStore t' = none → M (.error e) t' → Keeps d role (h e) t' Q) :
    Keeps d role (tryCatch p h) t Q :=
  Program.wp_tryCatch_of hp (fun a t' ht' h => ⟨h.1, hok a t' ht' h.2⟩)
    fun e t' ht' h => herr e t' ht' h.1 h.2

theorem keeps_ite {b : Prop} [Decidable b] {p q : Prog α} {Q : Except Exc α → Trace → Prop}
    (hp : b → Keeps d role p t Q) (hq : ¬ b → Keeps d role q t Q) :
    Keeps d role (if b then p else q) t Q := by
  by_cases h : b
  · rw [if_pos h]
    exact hp h
  · rw [if_neg h]
    exact hq h

/-- A best-effort command: its exception is dropped. -/
theorem keeps_bestEffort (ht : midStore t = none) {c : Cmd} {h : Exc → Prog (Reply c)}
    (hc : ∀ r, storedOf ⟨c, r⟩ = none) (hp : Permits d role t c)
    (hh : ∀ e t', midStore t' = none → Keeps d role (h e) t' anyEnd) :
    Keeps d role (tryCatch (issue c) h) t anyEnd :=
  keeps_tryCatch (keeps_issue (Q := anyEnd) ht hc hp fun _ => trivial) (fun _ _ _ _ => trivial)
    fun e t' _ ht' _ => hh e t' ht'

end CodeInterpreter
