import CodeInterpreter.System

/-!
# What a command changes

Each part of the world is changed by a few commands only. For each part an inversion lemma lists
these commands with their effect; all other commands leave the part as it is. The invariants of
the system are proved from these lemmas, part by part.

## Main definitions

* `QueueChange`, `RecordChange`, `ResultChange`, `CancelChange`, `SlotChange`.

## Main results

* `exec_queue`, `exec_record`, `exec_result`, `exec_cancel`, `exec_slots`.
* `answered_cases`: an answered command had no effect, or the effect of `World.exec`.
-/

namespace CodeInterpreter

open Async

variable {now : ℕ} {w : World}

/-! ### The parts of the world -/

/-- The two worlds have the same job stream, consumer group and delivery log. -/
structure SameQueue (w w' : World) : Prop where
  nextId : w'.nextId = w.nextId
  stream : w'.stream = w.stream
  lastDelivered : w'.lastDelivered = w.lastDelivered
  pending : w'.pending = w.pending
  delivered : w'.delivered = w.delivered

/-- What `XCLAIM` does: it drops the id of a deleted entry, it finds nothing to claim, or it
delivers the entry once more. -/
inductive ClaimResult (now : ℕ) (w : World) (consumer : Str) (id : ℕ) :
    World × List Delivery → Prop
  | deleted (h : ∀ e ∈ w.stream, e.id ≠ id) :
      ClaimResult now w consumer id ({ w with pending := w.pending.filter fun p => p.id ≠ id }, [])
  | idle : ClaimResult now w consumer id (w, [])
  | claimed (e : StreamEntry) (p : Pending) (he : e ∈ w.stream) (hid : e.id = id)
      (hp : p ∈ w.pending) (hpid : p.id = id) :
      ClaimResult now w consumer id
        ({ w with
            pending := w.pending.map fun q =>
              if q.id = id then ⟨id, consumer, q.timesDelivered + 1, now⟩ else q
            delivered := id :: w.delivered },
          [⟨id, e.payload, (id :: w.delivered).count id⟩])

theorem claim_result (consumer : Str) (minIdle id : ℕ) :
    ClaimResult now w consumer id (w.claim now consumer minIdle id) := by
  unfold World.claim
  split
  · rename_i hnone
    refine .deleted fun e he hid => ?_
    have hfalse := List.find?_eq_none.mp hnone e he
    exact hfalse (decide_eq_true hid)
  · exact .idle
  · rename_i e p he hp
    have hid : e.id = id := of_decide_eq_true
      (List.find?_some (p := fun x : StreamEntry => decide (x.id = id)) he)
    have hcl : p.id = id ∧ p.since + minIdle ≤ now := of_decide_eq_true
      (List.find?_some (p := fun q : Pending => decide (q.id = id ∧ q.since + minIdle ≤ now)) hp)
    exact .claimed e p (List.mem_of_find?_eq_some he) hid (List.mem_of_find?_eq_some hp) hcl.1

/-- `XCLAIM` touches no key. -/
theorem claim_keys (consumer : Str) (minIdle id : ℕ) :
    let w' := (w.claim now consumer minIdle id).1
    w'.record = w.record ∧ w'.result = w.result ∧ w'.cancel = w.cancel ∧ w'.slots = w.slots := by
  have h := @claim_result now w consumer minIdle id
  generalize w.claim now consumer minIdle id = x at h ⊢
  cases h <;> exact ⟨rfl, rfl, rfl, rfl⟩

/-- The commands that change the job stream or its consumer group. -/
def Cmd.onQueue : Cmd → Bool
  | .enqueue _ _ | .xreadgroup _ _ | .xclaim _ _ _ | .xack _ | .xdel _ => true
  | _ => false

/-- How a command changes the job stream and the consumer group. -/
inductive QueueChange (now : ℕ) (w : World) : Cmd → World → Prop
  | enqueue (payload : JobPayload) (record : JobRecord) :
      QueueChange now w (.enqueue payload record) (w.enqueue now payload record)
  | read (consumer : Str) (count : ℕ) :
      QueueChange now w (.xreadgroup consumer count) (w.read now consumer count)
  | claim (consumer : Str) (minIdle id : ℕ) :
      QueueChange now w (.xclaim consumer minIdle id) (w.claim now consumer minIdle id).1
  | xack (id : ℕ) :
      QueueChange now w (.xack id) { w with pending := w.pending.filter fun p => p.id ≠ id }
  | xdel (id : ℕ) :
      QueueChange now w (.xdel id) { w with stream := w.stream.filter fun e => e.id ≠ id }
  | other {c : Cmd} {w' : World} (hc : c.onQueue = false) (h : SameQueue w w') :
      QueueChange now w c w'

theorem exec_queue (c : Cmd) (o : Oracle) : QueueChange now w c (World.exec now w c o).1 := by
  cases c with
  | enqueue payload record => exact .enqueue payload record
  | xreadgroup consumer count => exact .read consumer count
  | xclaim consumer minIdle id => exact .claim consumer minIdle id
  | xack id => exact .xack id
  | xdel id => exact .xdel id
  | _ => exact .other rfl ⟨rfl, rfl, rfl, rfl, rfl⟩

/-- The commands that change the record of a job. -/
def Cmd.onRecord : Cmd → Bool
  | .enqueue _ _ | .setRecord _ _ | .cancelMulti _ _ => true
  | _ => false

/-- How a command changes the records: the enqueue creates one, the other two writers replace one
and preserve its expiry. -/
inductive RecordChange (now : ℕ) (w : World) : Cmd → World → Prop
  | enqueue {w' : World} (payload : JobPayload) (record : JobRecord)
      (h : w'.record =
        Function.update w.record payload.jobId (some (setEx now record recordTtlSeconds))) :
      RecordChange now w (.enqueue payload record) w'
  | write {c : Cmd} {w' : World} (jobId : Str) (record : JobRecord)
      (hc : c = .setRecord jobId record ∨ c = .cancelMulti jobId record)
      (h : w'.record =
        Function.update w.record jobId (some (setKeepTtl now (w.record jobId) record))) :
      RecordChange now w c w'
  | other {c : Cmd} {w' : World} (hc : c.onRecord = false) (h : w'.record = w.record) :
      RecordChange now w c w'

theorem exec_record (c : Cmd) (o : Oracle) : RecordChange now w c (World.exec now w c o).1 := by
  cases c with
  | enqueue payload record => exact .enqueue payload record rfl
  | setRecord jobId record => exact .write jobId record (.inl rfl) rfl
  | cancelMulti jobId record => exact .write jobId record (.inr rfl) rfl
  | xclaim consumer minIdle id => exact .other rfl (claim_keys consumer minIdle id).1
  | _ => exact .other rfl rfl

/-- How a command changes the stored results. -/
inductive ResultChange (now : ℕ) (w : World) : Cmd → World → Prop
  | store {w' : World} (jobId : Str) (result : ExecutionResult)
      (h : w'.result =
        Function.update w.result jobId (some (setEx now result resultTtlSeconds))) :
      ResultChange now w (.setResult jobId result) w'
  | other {c : Cmd} {w' : World} (hc : ∀ jobId result, c ≠ .setResult jobId result)
      (h : w'.result = w.result) : ResultChange now w c w'

theorem exec_result (c : Cmd) (o : Oracle) : ResultChange now w c (World.exec now w c o).1 := by
  cases c with
  | setResult jobId result => exact .store jobId result rfl
  | xclaim consumer minIdle id =>
    exact .other (fun _ _ h => by cases h) (claim_keys consumer minIdle id).2.1
  | _ => exact .other (fun _ _ h => by cases h) rfl

/-- How a command changes the cancellation flags. -/
inductive CancelChange (now : ℕ) (w : World) : Cmd → World → Prop
  | cancel {w' : World} (jobId : Str) (record : JobRecord)
      (h : w'.cancel = Function.update w.cancel jobId (some (setEx now () cancelTtlSeconds))) :
      CancelChange now w (.cancelMulti jobId record) w'
  | other {c : Cmd} {w' : World} (hc : ∀ jobId record, c ≠ .cancelMulti jobId record)
      (h : w'.cancel = w.cancel) : CancelChange now w c w'

theorem exec_cancel (c : Cmd) (o : Oracle) : CancelChange now w c (World.exec now w c o).1 := by
  cases c with
  | cancelMulti jobId record => exact .cancel jobId record rfl
  | xclaim consumer minIdle id =>
    exact .other (fun _ _ h => by cases h) (claim_keys consumer minIdle id).2.2.1
  | _ => exact .other (fun _ _ h => by cases h) rfl

/-- How a command changes the concurrency sets. -/
inductive SlotChange (now : ℕ) (w : World) : Cmd → World → Prop
  | acquire {w' : World} (userId jobId : Str) (limit ttlMs : ℕ)
      (h : w'.slots = Function.update w.slots userId
        ((w.slots userId).acquire now jobId ttlMs limit).1) :
      SlotChange now w (.acquire userId jobId limit ttlMs) w'
  | zrem {w' : World} (userId jobId : Str)
      (h : w'.slots = Function.update w.slots userId ((w.slots userId).zrem now jobId)) :
      SlotChange now w (.zrem userId jobId) w'
  | other {c : Cmd} {w' : World} (ha : ∀ u j l t, c ≠ .acquire u j l t) (hz : ∀ u j, c ≠ .zrem u j)
      (h : w'.slots = w.slots) : SlotChange now w c w'

theorem exec_slots (c : Cmd) (o : Oracle) : SlotChange now w c (World.exec now w c o).1 := by
  cases c with
  | acquire userId jobId limit ttlMs => exact .acquire userId jobId limit ttlMs rfl
  | zrem userId jobId => exact .zrem userId jobId rfl
  | xclaim consumer minIdle id =>
    exact .other (fun _ _ _ _ h => by cases h) (fun _ _ h => by cases h)
      (claim_keys consumer minIdle id).2.2.2
  | _ => exact .other (fun _ _ _ _ h => by cases h) (fun _ _ h => by cases h) rfl

/-! ### Answered commands -/

/-- An answered command had no effect and raised, or it had its effect, and then it raised or
returned its reply. -/
theorem answered_cases {d : Deployment} {s : Sys} {a : Act} {p : Process Cmd Reply Exc Role}
    {c : Cmd} {w : World} {r : Except Exc (Reply c)} {b : Bool}
    (h : (system d).Answered s a p c w r b) :
    (w = s.world ∧ b = false ∧ ∃ e, r = .error e) ∨
    ∃ o, w = (World.exec s.now s.world c o).1 ∧ b = true ∧
      ∀ x, r = .ok x → x = (World.exec s.now s.world c o).2 := by
  cases h.responds with
  | reply o => exact .inr ⟨o, rfl, rfl, fun x hx => (Except.ok.inj hx).symm⟩
  | lost hf e => exact .inl ⟨rfl, rfl, e, rfl⟩
  | unheard hf e o => exact .inr ⟨o, rfl, rfl, fun x hx => by cases hx⟩

end CodeInterpreter
