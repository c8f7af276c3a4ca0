import CodeInterpreter.System

/-!
# Reclaiming stale entries

One iteration of the consume loop, with the entries as Redis returns them: the text of the payload
is decoded by `_to_message`, which may raise. `claim_stale` claims the entries it was shown one by
one and returns the messages at the end, so what it has claimed before an exception is lost to the
loop: these entries have a new owner, and a delivery more, but no task.

## Main definitions

* `QueueCmd`, `QueueReply`: what the consumer asks of Redis and of the event loop.
* `claimStale`, `read`, `consume`: the iteration.
* `claimedBy`, `HandsOn`: the entries that an `XCLAIM` has claimed, and that all have a task.

## Main results

* `claimEach_runs`: what the loop of `claim_stale` returns, and when it raises.
* `claimed_handsOn_iff`: all claimed entries are dispatched exactly if no `XCLAIM` raises after one
  that claimed something, and all claimed payloads decode.
* `consume_refines`: on entries that decode, the iteration is the one of `Worker.consume`.
* `claim_dropped`: an `XCLAIM` fails after another one has claimed its entry.
-/

namespace CodeInterpreter.Worker.Reclaim

open Async

/-! ### The iteration -/

/-- A stream entry as Redis returns it, with the text of its `payload` field; `nth` is a ghost. -/
structure Entry where
  id : ℕ
  payload : Option Str
  nth : ℕ

/-- What an iteration asks of Redis and of the event loop. -/
inductive QueueCmd
  | xlen
  | xgroupCreate
  | xpendingRange (count minIdle : ℕ)
  | xclaim (consumer : Str) (minIdle id : ℕ)
  | xreadgroup (consumer : Str) (count : ℕ)
  | createTask (message : QueueMessage)

/-- The type of the reply to a command. -/
def QueueReply : QueueCmd → Type
  | .xlen => ℕ
  | .xgroupCreate => Bool
  | .xpendingRange _ _ => List (ℕ × ℕ)
  | .xclaim _ _ _ => List Entry
  | .xreadgroup _ _ => List Entry
  | .createTask _ => Unit

/-- A program of the consumer. -/
abbrev QueueProg := Async.Program QueueCmd QueueReply Exc

/-- Issue one command. -/
abbrev ask (c : QueueCmd) : QueueProg (QueueReply c) := Async.perform c

/-- The trace of an iteration, newest event first. -/
abbrev QueueTrace := List (Event QueueCmd QueueReply Exc)

variable (py : Python)

/-- `_to_message`: an absent payload field counts as an empty object. -/
def Entry.toMessage (entry : Entry) (deliveryCount : ℕ) : Except Exc QueueMessage :=
  Worker.toMessage py entry.id (entry.payload.getD (str "\x7b\x7d")) deliveryCount entry.nth

/-- `QueueConsumer.queue_depth`. -/
def queueDepth : QueueProg ℕ :=
  tryCatch (ask .xlen) fun e => if e = .redisResponse then pure (0 : ℕ) else throw e

/-- `QueueConsumer.ensure_group`; `ready` is the cached flag. -/
def ensureGroup (ready : Bool) : QueueProg Unit := do
  if ready then pure () else let _ ← ask .xgroupCreate

/-- `QueueConsumer.read`. -/
def read (ready : Bool) (consumer : Str) (count : ℕ) : QueueProg (List QueueMessage) := do
  ensureGroup ready
  let entries : List Entry ← ask (.xreadgroup consumer count)
  Program.ofExcept (entries.mapM fun entry => entry.toMessage py 1)

/-- The loop of `QueueConsumer.claim_stale` over the pending entries it was shown. -/
def claimEach (consumer : Str) (minIdle : ℕ) :
    List (ℕ × ℕ) → List QueueMessage → QueueProg (List QueueMessage)
  | [], claimed => return claimed
  | (msgId, deliveries) :: rest, claimed => do
    let result : List Entry ← ask (.xclaim consumer minIdle msgId)
    let messages ← Program.ofExcept (result.mapM fun entry => entry.toMessage py deliveries)
    claimEach consumer minIdle rest (claimed ++ messages)

/-- `QueueConsumer.claim_stale`. -/
def claimStale (ready : Bool) (consumer : Str) (minIdle count : ℕ) :
    QueueProg (List QueueMessage) := do
  ensureGroup ready
  let pending : List (ℕ × ℕ) ← ask (.xpendingRange count minIdle)
  claimEach py consumer minIdle pending []

/-- `WorkerDaemon._dispatch` for each message of a batch. -/
def dispatch : List QueueMessage → QueueProg Unit
  | [] => pure ()
  | message :: rest => do
    ask (.createTask message)
    dispatch rest

/-- One iteration of `WorkerDaemon._consume_loop` that found free pool slots; `batch` and `again`
are as for `Worker.consume`. -/
def consume (cfg : WorkerConfig) (ready : Bool) (batch : ℕ) (again : Option ℕ) :
    QueueProg Unit := do
  let _ ← queueDepth
  let stale ← claimStale py ready cfg.workerId cfg.claimMinIdleMs batch
  dispatch stale
  match again with
  | none => pure ()
  | some count =>
    let new ← read py true cfg.workerId count
    dispatch new

/-! ### Claimed entries -/

/-- The event is an `XCLAIM`. -/
def isXclaim : Event QueueCmd QueueReply Exc → Bool
  | ⟨.xclaim _ _ _, _⟩ => true
  | _ => false

/-- The event is an `XCLAIM` that raised. -/
def xclaimFails : Event QueueCmd QueueReply Exc → Bool
  | ⟨.xclaim _ _ _, .error _⟩ => true
  | _ => false

/-- The entries that an `XCLAIM` has claimed. One that raises may have been executed all the same;
`unheard` is what it has claimed then. -/
def claimedBy (unheard : List Entry) : Event QueueCmd QueueReply Exc → List Entry
  | ⟨.xclaim _ _ _, .ok entries⟩ => entries
  | ⟨.xclaim _ _ _, .error _⟩ => unheard
  | _ => []

/-- Every claimed entry has been dispatched. -/
def HandsOn (unheard : List Entry) (t : QueueTrace) : Prop :=
  ∀ e ∈ t, ∀ x ∈ claimedBy unheard e, ∃ deliveries message,
    x.toMessage py deliveries = .ok message ∧ ⟨.createTask message, .ok ()⟩ ∈ t

/-- The text of the payload is JSON, or `json.loads` rejects it as no JSON. -/
def Entry.Decodes (entry : Entry) : Prop :=
  ∀ e, py.loads (entry.payload.getD (str "\x7b\x7d")) = .error e → e = .jsonDecodeError

/-- Creating a task does not raise. -/
def TasksStart (t : QueueTrace) : Prop :=
  ∀ message r, ⟨.createTask message, r⟩ ∈ t → r = .ok ()

variable {py} {unheard : List Entry}

theorem claimedBy_of_not_isXclaim {e : Event QueueCmd QueueReply Exc} (h : isXclaim e = false) :
    claimedBy unheard e = [] := by
  obtain ⟨c, r⟩ := e
  cases c with
  | xclaim consumer minIdle id => cases h
  | _ => rfl

theorem xclaimFails_of_not_isXclaim {e : Event QueueCmd QueueReply Exc} (h : isXclaim e = false) :
    xclaimFails e = false := by
  obtain ⟨c, r⟩ := e
  cases c with
  | xclaim consumer minIdle id => cases h
  | _ => rfl

theorem Entry.toMessage_ok_iff {x : Entry} {n : ℕ} :
    (∃ m, x.toMessage py n = .ok m) ↔ x.Decodes py := by
  unfold Entry.toMessage Worker.toMessage Entry.Decodes
  cases hl : py.loads (x.payload.getD (str "\x7b\x7d")) with
  | ok payload => simp
  | error e => cases e <;> simp

/-- The messages of entries that all decode. -/
theorem toMessages_ok {n : ℕ} {xs : List Entry} {ms : List QueueMessage}
    (h : xs.mapM (fun x => x.toMessage py n) = .ok ms) :
    ∀ x ∈ xs, ∃ m ∈ ms, x.toMessage py n = .ok m := by
  induction xs generalizing ms with
  | nil => exact fun x hx => absurd hx List.not_mem_nil
  | cons x xs ih =>
    rw [List.mapM_cons] at h
    cases hx : x.toMessage py n with
    | error e =>
      rw [hx] at h
      cases h
    | ok m =>
      cases hxs : xs.mapM (fun x => x.toMessage py n) with
      | error e =>
        rw [hx, hxs] at h
        cases h
      | ok ms' =>
        rw [hx, hxs] at h
        obtain rfl : m :: ms' = ms := Except.ok.inj h
        intro y hy
        rcases List.mem_cons.mp hy with rfl | hy
        · exact ⟨m, List.mem_cons_self, hx⟩
        · obtain ⟨m', hm', hy⟩ := ih hxs y hy
          exact ⟨m', List.mem_cons_of_mem m hm', hy⟩

theorem toMessages_error {n : ℕ} {xs : List Entry} {e : Exc}
    (h : xs.mapM (fun x => x.toMessage py n) = .error e) : ∃ x ∈ xs, ¬ x.Decodes py := by
  induction xs with
  | nil => cases h
  | cons x xs ih =>
    rw [List.mapM_cons] at h
    cases hx : x.toMessage py n with
    | error e' =>
      refine ⟨x, List.mem_cons_self, fun hd => ?_⟩
      obtain ⟨m, hm⟩ := (Entry.toMessage_ok_iff (n := n)).mpr hd
      rw [hx] at hm
      cases hm
    | ok m =>
      cases hxs : xs.mapM (fun x => x.toMessage py n) with
      | error e' =>
        obtain ⟨y, hy, hnot⟩ := ih (hxs.trans (by rw [hx, hxs] at h; exact h))
        exact ⟨y, List.mem_cons_of_mem x hy, hnot⟩
      | ok ms =>
        rw [hx, hxs] at h
        cases h

/-! ### The parts of an iteration -/

variable {t t' : QueueTrace}

/-- What the loop of `claim_stale` leaves: events of `XCLAIM`s only. When it returns, none of them
raised and every claimed entry is among the messages; when it raises, one of them raised or a
claimed entry does not decode. -/
inductive ClaimsEnd (py : Python) (claimed : List QueueMessage) (new : QueueTrace) :
    Except Exc (List QueueMessage) → Prop
  | returned (ms : List QueueMessage) (hold : ∀ m ∈ claimed, m ∈ ms)
      (hok : ∀ e ∈ new, xclaimFails e = false)
      (hms : ∀ e ∈ new, ∀ x ∈ claimedBy [] e, ∃ n, ∃ m ∈ ms, x.toMessage py n = .ok m) :
      ClaimsEnd py claimed new (.ok ms)
  | refused (e : Event QueueCmd QueueReply Exc) (he : e ∈ new) (hf : xclaimFails e = true)
      (exc : Exc) : ClaimsEnd py claimed new (.error exc)
  | undecoded (e : Event QueueCmd QueueReply Exc) (he : e ∈ new) (x : Entry)
      (hx : x ∈ claimedBy [] e) (hd : ¬ x.Decodes py) (exc : Exc) :
      ClaimsEnd py claimed new (.error exc)

/-- The loop after a first `XCLAIM` whose entries decode to `ms`. -/
theorem ClaimsEnd.first {claimed ms : List QueueMessage} {new : QueueTrace}
    {out : Except Exc (List QueueMessage)} {consumer : Str} {minIdle id n : ℕ}
    {entries : List Entry} (h : ClaimsEnd py (claimed ++ ms) new out)
    (hms : ∀ x ∈ entries, ∃ m ∈ ms, x.toMessage py n = .ok m) :
    ClaimsEnd py claimed (new ++ [⟨.xclaim consumer minIdle id, .ok entries⟩]) out := by
  cases h with
  | returned all hold hok hall =>
    refine .returned all (fun m hm => hold m (List.mem_append_left ms hm)) ?_ ?_
    · exact List.forall_mem_append.mpr ⟨hok, List.forall_mem_singleton.mpr rfl⟩
    · intro e he x hx
      rcases List.mem_append.mp he with he | he
      · exact hall e he x hx
      · rw [List.mem_singleton.mp he] at hx
        obtain ⟨m, hm, hx⟩ := hms x hx
        exact ⟨n, m, hold m (List.mem_append_right claimed hm), hx⟩
  | refused e he hf exc => exact .refused e (List.mem_append_left _ he) hf exc
  | undecoded e he x hx hd exc => exact .undecoded e (List.mem_append_left _ he) x hx hd exc

theorem claimEach_runs {consumer : Str} {minIdle : ℕ} {pending : List (ℕ × ℕ)}
    {claimed : List QueueMessage} {out : Except Exc (List QueueMessage)}
    (h : Program.Runs (claimEach py consumer minIdle pending claimed) t out t') :
    ∃ new, t' = new ++ t ∧ (∀ e ∈ new, isXclaim e = true) ∧ ClaimsEnd py claimed new out := by
  induction pending generalizing claimed t with
  | nil =>
    obtain ⟨rfl, rfl⟩ := Program.runs_pure h
    exact ⟨[], rfl, by simp, .returned claimed (fun m hm => hm) (by simp) (by simp)⟩
  | cons shown rest ih =>
    obtain ⟨msgId, deliveries⟩ := shown
    rcases Program.runs_bind h with ⟨result, t₁, hclaim, h⟩ | ⟨exc, rfl, hclaim⟩
    · obtain rfl := Program.runs_perform hclaim
      rcases Program.runs_bind h with ⟨ms, t₂, hms, h⟩ | ⟨exc, rfl, hms⟩
      · obtain ⟨hok, rfl⟩ := Program.runs_ofExcept hms
        obtain ⟨new, rfl, hnew, hend⟩ := ih h
        refine ⟨new ++ [⟨.xclaim consumer minIdle msgId, .ok result⟩], List.append_cons .., ?_, ?_⟩
        · exact List.forall_mem_append.mpr ⟨hnew, List.forall_mem_singleton.mpr rfl⟩
        · exact hend.first (toMessages_ok hok.symm)
      · obtain ⟨herr, rfl⟩ := Program.runs_ofExcept hms
        obtain ⟨x, hx, hd⟩ := toMessages_error herr.symm
        exact ⟨[⟨.xclaim consumer minIdle msgId, .ok result⟩], rfl, by simp [isXclaim],
          .undecoded ⟨.xclaim consumer minIdle msgId, .ok result⟩ List.mem_cons_self x hx hd exc⟩
    · obtain rfl := Program.runs_perform hclaim
      exact ⟨[⟨.xclaim consumer minIdle msgId, .error exc⟩], rfl, by simp [isXclaim],
        .refused _ List.mem_cons_self rfl exc⟩

/-- `dispatch` creates a task for every message and nothing else. -/
theorem dispatch_runs {ms : List QueueMessage} {out : Except Exc Unit}
    (h : Program.Runs (dispatch ms) t out t') (hstart : TasksStart t') :
    out = .ok () ∧ (∀ m ∈ ms, ⟨.createTask m, .ok ()⟩ ∈ t') ∧
      ∃ new, t' = new ++ t ∧ ∀ e ∈ new, isXclaim e = false := by
  induction ms generalizing t with
  | nil =>
    obtain ⟨rfl, rfl⟩ := Program.runs_pure h
    exact ⟨rfl, by simp, [], rfl, by simp⟩
  | cons m ms ih =>
    rcases Program.runs_bind h with ⟨u, t₁, htask, h⟩ | ⟨exc, rfl, htask⟩
    · obtain rfl := Program.runs_perform htask
      obtain ⟨hout, hms, new, rfl, hnew⟩ := ih h
      refine ⟨hout, ?_, new ++ [⟨.createTask m, .ok u⟩], List.append_cons .., ?_⟩
      · intro m' hm'
        rcases List.mem_cons.mp hm' with rfl | hm'
        · exact List.mem_append_right new List.mem_cons_self
        · exact hms m' hm'
      · exact List.forall_mem_append.mpr ⟨hnew, List.forall_mem_singleton.mpr rfl⟩
    · obtain rfl := Program.runs_perform htask
      cases hstart m (.error exc) List.mem_cons_self

/-- The command neither claims an entry nor creates a task. -/
def quiet : QueueCmd → Bool
  | .xclaim _ _ _ | .createTask _ => false
  | _ => true

theorem isXclaim_of_quiet {e : Event QueueCmd QueueReply Exc} (h : quiet e.cmd = true) :
    isXclaim e = false := by
  obtain ⟨c, r⟩ := e
  cases c with
  | xclaim consumer minIdle id => cases h
  | _ => rfl

theorem queueDepth_quiet : queueDepth.Issues fun c => quiet c = true := by
  refine Program.issues_tryCatch (Program.issues_perform rfl) fun e => ?_
  exact Program.issues_ite (Program.issues_pure _) (Program.issues_throw e)

theorem ensureGroup_quiet (ready : Bool) : (ensureGroup ready).Issues fun c => quiet c = true := by
  refine Program.issues_ite (Program.issues_pure _) ?_
  exact Program.issues_bind (Program.issues_perform rfl) fun _ => Program.issues_pure _

theorem read_quiet (ready : Bool) (consumer : Str) (count : ℕ) :
    (read py ready consumer count).Issues fun c => quiet c = true := by
  refine Program.issues_bind (ensureGroup_quiet ready) fun _ => ?_
  exact Program.issues_bind (Program.issues_perform rfl) fun _ => Program.issues_ofExcept _

/-- How `claim_stale` ends: before its loop, or with it. -/
theorem claimStale_runs {ready : Bool} {consumer : Str} {minIdle count : ℕ}
    {out : Except Exc (List QueueMessage)}
    (h : Program.Runs (claimStale py ready consumer minIdle count) t out t') :
    ∃ new before, t' = new ++ (before ++ t) ∧ (∀ e ∈ before, quiet e.cmd = true) ∧
      (∀ e ∈ new, isXclaim e = true) ∧
      ((new = [] ∧ ∃ exc, out = .error exc) ∨ ClaimsEnd py [] new out) := by
  rcases Program.runs_bind h with ⟨u, t₁, hgroup, h⟩ | ⟨exc, rfl, hgroup⟩
  · obtain ⟨before, rfl, hbefore⟩ := hgroup.issued (ensureGroup_quiet ready)
    rcases Program.runs_bind h with ⟨pending, t₂, hpending, h⟩ | ⟨exc, rfl, hpending⟩
    · obtain rfl := Program.runs_perform hpending
      obtain ⟨new, rfl, hnew, hend⟩ := claimEach_runs h
      refine ⟨new, ⟨.xpendingRange count minIdle, .ok pending⟩ :: before, rfl, ?_, hnew, .inr hend⟩
      exact List.forall_mem_cons.mpr ⟨rfl, hbefore⟩
    · obtain rfl := Program.runs_perform hpending
      refine ⟨[], ⟨.xpendingRange count minIdle, .error exc⟩ :: before, rfl, ?_, by simp,
        .inl ⟨rfl, exc, rfl⟩⟩
      exact List.forall_mem_cons.mpr ⟨rfl, hbefore⟩
  · obtain ⟨before, rfl, hbefore⟩ := hgroup.issued (ensureGroup_quiet ready)
    exact ⟨[], before, rfl, hbefore, by simp, .inl ⟨rfl, exc, rfl⟩⟩

/-- How an iteration ends: it does not get to an `XCLAIM`, it raises while it claims, or it has
dispatched all messages that `claim_stale` has returned. -/
inductive IterationEnds (py : Python) (t : QueueTrace) : Prop
  | unclaimed (h : ∀ e ∈ t, isXclaim e = false)
  | raised (new before : QueueTrace) (exc : Exc) (ht : t = new ++ before)
      (hb : ∀ e ∈ before, quiet e.cmd = true) (hnew : ∀ e ∈ new, isXclaim e = true)
      (hend : ClaimsEnd py [] new (.error exc))
  | dispatched (after new before : QueueTrace) (ms : List QueueMessage)
      (ht : t = after ++ (new ++ before)) (ha : ∀ e ∈ after, isXclaim e = false)
      (hb : ∀ e ∈ before, quiet e.cmd = true) (hend : ClaimsEnd py [] new (.ok ms))
      (htasks : ∀ m ∈ ms, ⟨.createTask m, .ok ()⟩ ∈ t)

/-- What follows the dispatched messages of `claim_stale` claims nothing. -/
theorem readAndDispatch_runs {consumer : Str} {again : Option ℕ} {out : Except Exc Unit}
    (h : Program.Runs (match again with
      | none => pure ()
      | some count => do
        let new ← read py true consumer count
        dispatch new : QueueProg Unit) t out t') (hstart : TasksStart t') :
    ∃ new, t' = new ++ t ∧ ∀ e ∈ new, isXclaim e = false := by
  cases again with
  | none =>
    obtain ⟨-, rfl⟩ := Program.runs_pure h
    exact ⟨[], rfl, by simp⟩
  | some count =>
    rcases Program.runs_bind h with ⟨ms, t₁, hread, h⟩ | ⟨exc, -, hread⟩
    · obtain ⟨new, rfl, hnew⟩ := hread.issued (read_quiet true consumer count)
      obtain ⟨-, -, new', rfl, hnew'⟩ := dispatch_runs h hstart
      refine ⟨new' ++ new, (List.append_assoc ..).symm, fun e he => ?_⟩
      rcases List.mem_append.mp he with he | he
      · exact hnew' e he
      · exact isXclaim_of_quiet (hnew e he)
    · obtain ⟨new, rfl, hnew⟩ := hread.issued (read_quiet true consumer count)
      exact ⟨new, rfl, fun e he => isXclaim_of_quiet (hnew e he)⟩

theorem consume_runs {cfg : WorkerConfig} {ready : Bool} {batch : ℕ} {again : Option ℕ}
    {out : Except Exc Unit} (h : Program.Runs (consume py cfg ready batch again) [] out t)
    (hstart : TasksStart t) : IterationEnds py t := by
  rcases Program.runs_bind h with ⟨depth, t₁, hdepth, h⟩ | ⟨exc, -, hdepth⟩
  · obtain ⟨first, rfl, hfirst⟩ := hdepth.issued queueDepth_quiet
    rw [List.append_nil] at h
    have hbefore : ∀ {before : QueueTrace}, (∀ e ∈ before, quiet e.cmd = true) →
        ∀ e ∈ before ++ first, quiet e.cmd = true := fun hb e he =>
      (List.mem_append.mp he).elim (hb e) (hfirst e)
    rcases Program.runs_bind h with ⟨stale, t₂, hclaim, h⟩ | ⟨exc, -, hclaim⟩
    · obtain ⟨new, before, rfl, hb, -, ⟨-, exc, hexc⟩ | hend⟩ := claimStale_runs hclaim
      · cases hexc
      rcases Program.runs_bind h with ⟨u, t₃, hdisp, h⟩ | ⟨exc, -, hdisp⟩
      · obtain ⟨later, rfl, hlater⟩ := readAndDispatch_runs h hstart
        obtain ⟨-, htasks, tasks, rfl, hnone⟩ :=
          dispatch_runs hdisp fun m r hm => hstart m r (List.mem_append_right later hm)
        refine .dispatched (later ++ tasks) new (before ++ first) stale
          (List.append_assoc ..).symm ?_ (hbefore hb) hend ?_
        · exact fun e he => (List.mem_append.mp he).elim (hlater e) (hnone e)
        · exact fun m hm => List.mem_append_right later (htasks m hm)
      · obtain ⟨hok, -⟩ := dispatch_runs hdisp hstart
        cases hok
    · obtain ⟨new, before, rfl, hb, hnew, ⟨rfl, -⟩ | hend⟩ := claimStale_runs hclaim
      · exact .unclaimed fun e he => isXclaim_of_quiet (hbefore hb e he)
      · exact .raised new (before ++ first) exc rfl (hbefore hb) hnew hend
  · obtain ⟨first, rfl, hfirst⟩ := hdepth.issued queueDepth_quiet
    rw [List.append_nil]
    exact .unclaimed fun e he => isXclaim_of_quiet (hfirst e he)

/-! ### Claimed entries are dispatched -/

theorem claimedBy_heard {e : Event QueueCmd QueueReply Exc} (h : xclaimFails e = false) :
    claimedBy unheard e = claimedBy [] e := by
  obtain ⟨c, r⟩ := e
  cases c with
  | xclaim consumer minIdle id =>
    cases r with
    | ok entries => rfl
    | error exc => cases h
  | _ => rfl

theorem claimedBy_nil_subset {e : Event QueueCmd QueueReply Exc} {x : Entry}
    (h : x ∈ claimedBy [] e) : x ∈ claimedBy unheard e := by
  cases hf : xclaimFails e with
  | false => rwa [claimedBy_heard hf]
  | true =>
    obtain ⟨c, r⟩ := e
    cases c with
    | xclaim consumer minIdle id =>
      cases r with
      | ok entries => exact h
      | error exc => exact absurd h List.not_mem_nil
    | _ => cases hf

/-- **Claimed entries are handed on exactly if** no `XCLAIM` raises, or none has claimed anything,
and every claimed payload decodes. -/
theorem claimed_handsOn_iff {cfg : WorkerConfig} {ready : Bool} {batch : ℕ} {again : Option ℕ}
    {out : Except Exc Unit} (h : Program.Runs (consume py cfg ready batch again) [] out t)
    (hstart : TasksStart t) (unheard : List Entry) :
    HandsOn py unheard t ↔
      ((∀ e ∈ t, xclaimFails e = false) ∨ ∀ e ∈ t, claimedBy unheard e = []) ∧
        ∀ e ∈ t, ∀ x ∈ claimedBy unheard e, x.Decodes py := by
  have hdecodes : HandsOn py unheard t → ∀ e ∈ t, ∀ x ∈ claimedBy unheard e, x.Decodes py := by
    intro hon e he x hx
    obtain ⟨n, m, hm, -⟩ := hon e he x hx
    exact Entry.toMessage_ok_iff.mp ⟨m, hm⟩
  cases consume_runs h hstart with
  | unclaimed hno =>
    have hempty : ∀ e ∈ t, claimedBy unheard e = [] := fun e he =>
      claimedBy_of_not_isXclaim (hno e he)
    constructor
    · exact fun hon => ⟨.inr hempty, hdecodes hon⟩
    · intro _ e he x hx
      rw [hempty e he] at hx
      cases hx
  | raised new before exc ht hb hnew hend =>
    -- no task has been created
    have htasks : ∀ m r, (⟨.createTask m, r⟩ : Event QueueCmd QueueReply Exc) ∉ t := by
      intro m r hm
      rw [ht] at hm
      rcases List.mem_append.mp hm with hm | hm
      · cases hnew _ hm
      · cases hb _ hm
    constructor
    · intro hon
      refine ⟨.inr fun e he => List.eq_nil_iff_forall_not_mem.mpr fun x hx => ?_, hdecodes hon⟩
      obtain ⟨n, m, -, hm⟩ := hon e he x hx
      exact htasks m _ hm
    · rintro ⟨hclaims, hdec⟩ e he x hx
      have hmem : ∀ e ∈ new, e ∈ t := fun e he => ht ▸ List.mem_append_left before he
      cases hend with
      | refused e' he' hf exc' =>
        rcases hclaims with hok | hempty
        · rw [hok e' (hmem e' he')] at hf
          cases hf
        · rw [hempty e he] at hx
          cases hx
      | undecoded e' he' x' hx' hd exc' =>
        exact absurd (hdec e' (hmem e' he') x' (claimedBy_nil_subset hx')) hd
  | dispatched later new before ms ht hlater hb hend htasks =>
    cases hend with
    | returned ms hold hok hms =>
      have hnone : ∀ e ∈ t, e ∉ new → isXclaim e = false := by
        intro e he hnot
        rw [ht] at he
        rcases List.mem_append.mp he with he | he
        · exact hlater e he
        · exact isXclaim_of_quiet (hb e ((List.mem_append.mp he).resolve_left hnot))
      have hfails : ∀ e ∈ t, xclaimFails e = false := by
        intro e he
        by_cases hnew : e ∈ new
        · exact hok e hnew
        · exact xclaimFails_of_not_isXclaim (hnone e he hnew)
      have hon : HandsOn py unheard t := by
        intro e he x hx
        by_cases hnew : e ∈ new
        · rw [claimedBy_heard (hok e hnew)] at hx
          obtain ⟨n, m, hm, hx⟩ := hms e hnew x hx
          exact ⟨n, m, hx, htasks m hm⟩
        · rw [claimedBy_of_not_isXclaim (hnone e he hnew)] at hx
          cases hx
      exact ⟨fun hon => ⟨.inl hfails, hdecodes hon⟩, fun _ => hon⟩

/-! ### Entries that decode -/

/-- The command of `Worker.consume`. -/
def QueueCmd.toCmd : QueueCmd → Cmd
  | .xlen => .xlen
  | .xgroupCreate => .xgroupCreate
  | .xpendingRange count minIdle => .xpendingRange count minIdle
  | .xclaim consumer minIdle id => .xclaim consumer minIdle id
  | .xreadgroup consumer count => .xreadgroup consumer count
  | .createTask message => .createTask message

/-- The entry with its decoded payload. -/
def Entry.decode (py : Python) (x : Entry) : Option Delivery :=
  (x.toMessage py 1).toOption.map fun m => ⟨m.msgId, m.payload, m.nth⟩

/-- The reply with decoded payloads. -/
def decodeReply (py : Python) : (c : QueueCmd) → QueueReply c → Reply c.toCmd
  | .xlen, n => n
  | .xgroupCreate, b => b
  | .xpendingRange _ _, pending => pending
  | .xclaim _ _ _, entries => entries.filterMap (Entry.decode py)
  | .xreadgroup _ _, entries => entries.filterMap (Entry.decode py)
  | .createTask _, u => u

/-- The event with decoded payloads. -/
def decodeEvent (py : Python) (e : Event QueueCmd QueueReply Exc) : Event Cmd Reply Exc :=
  ⟨e.cmd.toCmd, e.answer.map (decodeReply py e.cmd)⟩

/-- The entries that an answered command has delivered. -/
def delivered : Event QueueCmd QueueReply Exc → List Entry
  | ⟨.xclaim _ _ _, .ok entries⟩ => entries
  | ⟨.xreadgroup _ _, .ok entries⟩ => entries
  | _ => []

/-- All delivered entries decode. -/
def AllDecode (py : Python) (t : QueueTrace) : Prop :=
  ∀ e ∈ t, ∀ x ∈ delivered e, x.Decodes py

/-- On entries that decode, every run of `p` is one of `q` with the decoded events, with results
that satisfy `Good` and correspond by `f`. -/
def Refines {α β : Type} (py : Python) (p : QueueProg α) (q : Prog β) (f : α → β)
    (Good : α → Prop) : Prop :=
  ∀ t out t', Program.Runs p t out t' → AllDecode py t' →
    Program.Runs q (t.map (decodeEvent py)) (out.map f) (t'.map (decodeEvent py)) ∧
      ∀ a, out = .ok a → Good a

theorem refines_pure {α : Type} (a : α) :
    Refines py (pure a) (pure a) id fun _ => True := by
  intro t out t' h _
  obtain ⟨rfl, rfl⟩ := Program.runs_pure h
  exact ⟨.pure _ _, fun _ _ => trivial⟩

theorem refines_throw {α β : Type} {f : α → β} {Good : α → Prop} (e : Exc) :
    Refines py (throw e : QueueProg α) (throw e) f Good := by
  intro t out t' h _
  obtain ⟨rfl, rfl⟩ := Program.runs_throw h
  exact ⟨.throw _ _, fun b hb => by cases hb⟩

theorem refines_bind {α β γ δ : Type} {p : QueueProg α} {q : Prog β} {f : α → β}
    {Good : α → Prop} {p' : α → QueueProg γ} {q' : β → Prog δ} {g : γ → δ} {Good' : γ → Prop}
    (hp : Refines py p q f Good) (hp' : ∀ a, Good a → Refines py (p' a) (q' (f a)) g Good') :
    Refines py (p >>= p') (q >>= q') g Good' := by
  intro t out t' h hdec
  rcases Program.runs_bind h with ⟨a, t₁, h₁, h₂⟩ | ⟨e, rfl, h₁⟩
  · have hdec₁ : AllDecode py t₁ := fun e he => hdec e (h₂.suffix.subset he)
    obtain ⟨hrun, hgood⟩ := hp t _ t₁ h₁ hdec₁
    obtain ⟨hrun', hgood'⟩ := hp' a (hgood a rfl) t₁ out t' h₂ hdec
    exact ⟨hrun.bind hrun', hgood'⟩
  · obtain ⟨hrun, -⟩ := hp t _ t' h₁ hdec
    exact ⟨hrun.bind_error q', fun b hb => by cases hb⟩

theorem refines_tryCatch {α β : Type} {p : QueueProg α} {q : Prog β} {f : α → β}
    {Good : α → Prop} {h : Exc → QueueProg α} {h' : Exc → Prog β}
    (hp : Refines py p q f Good) (hh : ∀ e, Refines py (h e) (h' e) f Good) :
    Refines py (tryCatch p h) (tryCatch q h') f Good := by
  intro t out t' hrun hdec
  rcases Program.runs_tryCatch hrun with ⟨a, rfl, h₁⟩ | ⟨e, t₁, h₁, h₂⟩
  · obtain ⟨hrun, hgood⟩ := hp t _ t' h₁ hdec
    exact ⟨hrun.tryCatch h', hgood⟩
  · have hdec₁ : AllDecode py t₁ := fun e he => hdec e (h₂.suffix.subset he)
    obtain ⟨hrun', hgood'⟩ := hh e t₁ out t' h₂ hdec
    exact ⟨(hp t _ t₁ h₁ hdec₁).1.tryCatch_error hrun', hgood'⟩

theorem refines_ask (c : QueueCmd) : Refines py (ask c) (issue c.toCmd) (decodeReply py c)
    fun a => ∀ x ∈ delivered ⟨c, .ok a⟩, x.Decodes py := by
  intro t out t' h hdec
  obtain rfl := Program.runs_perform h
  refine ⟨Program.Runs.perform c.toCmd _ _, fun a ha => ?_⟩
  subst ha
  exact hdec _ List.mem_cons_self

theorem Entry.toMessage_of_decodes {x : Entry} (hx : x.Decodes py) :
    ∃ d, x.decode py = some d ∧ ∀ n, x.toMessage py n = .ok (Delivery.toMessage d n) := by
  unfold Entry.Decodes at hx
  unfold Entry.decode Entry.toMessage Worker.toMessage
  cases hl : py.loads (x.payload.getD (str "\x7b\x7d")) with
  | ok payload => exact ⟨_, rfl, fun n => rfl⟩
  | error e =>
    obtain rfl := hx e hl
    exact ⟨_, rfl, fun n => rfl⟩

/-- The messages of entries that decode are those of the decoded entries. -/
theorem toMessages_of_decodes {xs : List Entry} (h : ∀ x ∈ xs, x.Decodes py) (n : ℕ) :
    xs.mapM (fun x => x.toMessage py n) =
      .ok ((xs.filterMap (Entry.decode py)).map fun d => Delivery.toMessage d n) := by
  induction xs with
  | nil => rfl
  | cons x xs ih =>
    obtain ⟨d, hd, hmsg⟩ := Entry.toMessage_of_decodes (h x List.mem_cons_self)
    rw [List.mapM_cons, hmsg n, ih fun y hy => h y (List.mem_cons_of_mem x hy),
      List.filterMap_cons_some hd]
    rfl

theorem queueDepth_refines : Refines py queueDepth Worker.queueDepth id fun _ => True := by
  refine refines_tryCatch ?_ fun e => ?_
  · exact fun t out t' h hdec => ⟨(refines_ask .xlen t out t' h hdec).1, fun _ _ => trivial⟩
  · split
    · exact refines_pure 0
    · exact refines_throw e

theorem ensureGroup_refines (ready : Bool) :
    Refines py (ensureGroup ready) (Worker.ensureGroup ready) id fun _ => True := by
  cases ready with
  | true => exact refines_pure ()
  | false => exact refines_bind (refines_ask .xgroupCreate) fun _ _ => refines_pure ()

theorem read_refines (ready : Bool) (consumer : Str) (count : ℕ) :
    Refines py (read py ready consumer count) (Worker.read ready consumer count) id
      fun _ => True := by
  refine refines_bind (ensureGroup_refines ready) fun _ _ => ?_
  refine refines_bind (refines_ask (.xreadgroup consumer count)) fun entries hentries => ?_
  have hms : entries.mapM (fun x => x.toMessage py 1) = .ok _ := toMessages_of_decodes hentries 1
  rw [hms]
  exact refines_pure _

theorem claimEach_refines (consumer : Str) (minIdle : ℕ) (pending : List (ℕ × ℕ)) :
    ∀ claimed, Refines py (claimEach py consumer minIdle pending claimed)
      (Worker.claimEach consumer minIdle pending claimed) id fun _ => True := by
  induction pending with
  | nil => exact fun claimed => refines_pure claimed
  | cons shown rest ih =>
    obtain ⟨msgId, deliveries⟩ := shown
    intro claimed
    refine refines_bind (refines_ask (.xclaim consumer minIdle msgId)) fun entries hentries => ?_
    have hms : entries.mapM (fun x => x.toMessage py deliveries) = .ok _ :=
      toMessages_of_decodes hentries deliveries
    rw [hms]
    exact ih _

theorem claimStale_refines (ready : Bool) (consumer : Str) (minIdle count : ℕ) :
    Refines py (claimStale py ready consumer minIdle count)
      (Worker.claimStale ready consumer minIdle count) id fun _ => True := by
  refine refines_bind (ensureGroup_refines ready) fun _ _ => ?_
  exact refines_bind (refines_ask (.xpendingRange count minIdle)) fun pending _ =>
    claimEach_refines consumer minIdle pending []

theorem dispatch_refines (ms : List QueueMessage) :
    Refines py (dispatch ms) (Worker.dispatch ms) id fun _ => True := by
  induction ms with
  | nil => exact refines_pure ()
  | cons m ms ih => exact refines_bind (refines_ask (.createTask m)) fun _ _ => ih

/-- **The iteration refines `Worker.consume`**: on entries that decode, each run of it is, with the
decoded entries, a run of the other. -/
theorem consume_refines (cfg : WorkerConfig) (ready : Bool) (batch : ℕ) (again : Option ℕ) :
    Refines py (consume py cfg ready batch again) (Worker.consume cfg ready batch again) id
      fun _ => True := by
  refine refines_bind queueDepth_refines fun _ _ => ?_
  refine refines_bind (claimStale_refines ready cfg.workerId cfg.claimMinIdleMs batch)
    fun stale _ => ?_
  refine refines_bind (dispatch_refines stale) fun _ _ => ?_
  cases again with
  | none => exact refines_pure ()
  | some count =>
    exact refines_bind (read_refines true cfg.workerId count) fun new _ => dispatch_refines new

/-! ### Two stale entries -/

/-- Redis shows two stale entries; what becomes of the second `XCLAIM` is given. -/
def staleEnv (second : Except Exc (List Entry)) (_ : QueueTrace) :
    (c : QueueCmd) → Except Exc (QueueReply c)
  | .xlen => .ok (2 : ℕ)
  | .xgroupCreate => .ok true
  | .xpendingRange _ _ => .ok [(1, 1), (2, 1)]
  | .xclaim _ _ id => if id = 1 then .ok [⟨1, some (str "\x7b\x7d"), 2⟩] else second
  | .xreadgroup _ _ => .ok ([] : List Entry)
  | .createTask _ => .ok ()

/-- The test for `TasksStart`. -/
def taskStarts : Event QueueCmd QueueReply Exc → Bool
  | ⟨.createTask _, .error _⟩ => false
  | _ => true

theorem tasksStart_of_all (h : t.all taskStarts = true) : TasksStart t := by
  intro message r hmem
  have hstarts := List.all_eq_true.mp h _ hmem
  cases r with
  | ok u => rfl
  | error e => cases hstarts

/-- The message that an event hands to a task. -/
def taskOf : Event QueueCmd QueueReply Exc → Option QueueMessage
  | ⟨.createTask message, _⟩ => some message
  | _ => none

/-- The iteration of a worker with the default settings. -/
def staleIteration (second : Except Exc (List Entry)) : Except Exc Unit × QueueTrace :=
  (consume samplePython (Deployment.default.worker (str "worker-1")) true 2 none).play
    (staleEnv second) []

theorem staleIteration_runs (second : Except Exc (List Entry)) :
    Program.Runs (consume samplePython (Deployment.default.worker (str "worker-1")) true 2 none) []
      (staleIteration second).1 (staleIteration second).2 := Program.runs_play _ _ _

/-- The second stale entry. -/
def secondEntry : Entry := ⟨2, some (str "\x7b\x7d"), 2⟩

/-- Both entries are claimed and dispatched. -/
theorem claimed_handsOn_iff_two :
    (staleIteration (.ok [secondEntry])).2.filterMap (fun e => (taskOf e).map QueueMessage.msgId) =
      [2, 1] ∧ HandsOn samplePython [] (staleIteration (.ok [secondEntry])).2 := by
  have hstart : TasksStart (staleIteration (.ok [secondEntry])).2 :=
    tasksStart_of_all (by decide +kernel)
  have hdecodes : ∀ e ∈ (staleIteration (.ok [secondEntry])).2, ∀ x ∈ claimedBy [] e,
      x.payload = some (str "\x7b\x7d") := by decide +kernel
  refine ⟨by decide +kernel, (claimed_handsOn_iff (staleIteration_runs _) hstart []).mpr
    ⟨.inl (by decide +kernel), fun e he x hx => ?_⟩⟩
  have hloads : samplePython.loads (str "\x7b\x7d") = .ok (.dict []) := rfl
  intro exc hexc
  rw [hdecodes e he x hx, Option.getD_some, hloads] at hexc
  cases hexc

/-- The second `XCLAIM` fails: the first entry is claimed, and no task is created. -/
theorem claim_dropped :
    ∃ out t, Program.Runs
        (consume samplePython (Deployment.default.worker (str "worker-1")) true 2 none) [] out t ∧
      TasksStart t ∧ (∃ e ∈ t, (claimedBy [] e).map Entry.id = [1]) ∧
      ¬ HandsOn samplePython [] t := by
  have htasks : ∀ e ∈ (staleIteration (.error .other)).2, (taskOf e).isNone = true := by
    decide +kernel
  have hclaimed : ∃ e ∈ (staleIteration (.error .other)).2,
      (claimedBy [] e).map Entry.id = [1] := by decide +kernel
  refine ⟨_, _, staleIteration_runs (.error .other), tasksStart_of_all (by decide +kernel),
    hclaimed, fun hon => ?_⟩
  obtain ⟨e, he, hid⟩ := hclaimed
  obtain ⟨x, rest, hx, -⟩ := List.map_eq_cons_iff.mp hid
  obtain ⟨n, m, -, hm⟩ := hon e he x (hx ▸ List.mem_cons_self)
  cases htasks _ hm

end CodeInterpreter.Worker.Reclaim
