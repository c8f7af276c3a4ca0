import CodeInterpreter.Invariants.Deliveries
import Mathlib.Data.List.Perm.Subperm

/-!
# The delivery count of a message

`QueueConsumer.read` gives its messages the delivery count one. `QueueConsumer.claim_stale` takes
the count from the `XPENDING` reply, but the `XCLAIM` that follows delivers the entry once more and
increments the counter. So the count of a first delivery is right, and that of every reclaimed
delivery is too low.

## Main definitions

* `Handed`: a message that the consume loop handed to `_process`.
* `CountsDeliveries`: the counts are right, and at most `max_retries` deliveries pass the check.

## Main results

* `shown_lt_nth`: a count shown by `XPENDING` is below the ordinal of every later delivery.
* `countsDeliveries_iff`: the count is right exactly when no reclaimed delivery was handed over.
-/

namespace CodeInterpreter

open Async

variable {d : Deployment} {s : Sys}

/-- The message was handed to `_process`. -/
def Handed (hist : History) (m : QueueMessage) : Prop := ∃ o ∈ hist, o.event.cmd = .createTask m

/-- The delivery counts of the messages of an entry are the number of times that Redis has
delivered the entry, this time included, and at most `maxRetries` of the deliveries get past the
retry check. -/
def CountsDeliveries (maxRetries : ℕ) (hist : History) (id : ℕ) : Prop :=
  (∀ m, Handed hist m → m.msgId = id → m.deliveryCount = m.nth) ∧
  ∀ passed : List ℕ, passed.Nodup →
    (∀ n ∈ passed, ∃ m, Handed hist m ∧ m.msgId = id ∧ m.nth = n ∧
      ¬ maxRetries < m.deliveryCount) →
    passed.length ≤ maxRetries

/-- The message that a command hands to `_process`. -/
def handedBy : Cmd → Option QueueMessage
  | .createTask m => some m
  | _ => none

theorem handed_iff {hist : History} {m : QueueMessage} :
    Handed hist m ↔ ∃ o ∈ hist, m ∈ handedBy o.event.cmd := by
  have hcmd : ∀ c : Cmd, c = .createTask m ↔ m ∈ handedBy c := fun c => by
    cases c <;> simp [handedBy, eq_comm]
  simp only [Handed, hcmd]

/-! ### Counts and ordinals -/

/-- The delivery log only grows. -/
theorem exec_delivered (now : ℕ) (w : World) (c : Cmd) (o : Oracle) (id : ℕ) :
    w.delivered.count id ≤ (World.exec now w c o).1.delivered.count id := by
  have hchange := @exec_queue now w c o
  generalize (World.exec now w c o).1 = w' at hchange
  cases hchange with
  | enqueue payload record => exact le_rfl
  | read consumer count =>
    change _ ≤ (_ ++ w.delivered).count id
    rw [List.count_append]
    exact Nat.le_add_left _ _
  | claim consumer minIdle i =>
    have hres := @claim_result now w consumer minIdle i
    generalize w.claim now consumer minIdle i = x at hres
    cases hres with
    | deleted hnone => exact le_rfl
    | idle => exact le_rfl
    | claimed e p he hid hp hpid => exact List.count_le_count_cons
  | xack i => exact le_rfl
  | xdel i => exact le_rfl
  | other hc hsame => rw [hsame.delivered]

/-- What `XPENDING` shows is the delivery counter of a delivered entry. -/
theorem shown_count {a : Act} {p : Process Cmd Reply Exc Role} {c : Cmd} {w : World}
    {r : Except Exc (Reply c)} {b : Bool} (h : (system d).Answered s a p c w r b)
    (hq : QueueOk s.world) {y : ℕ × ℕ} (hy : y ∈ shownBy ⟨c, r⟩) :
    w.delivered = s.world.delivered ∧ y.2 = w.delivered.count y.1 ∧ 1 ≤ y.2 := by
  rcases answered_cases h with ⟨-, -, e, rfl⟩ | ⟨o, rfl, -, hval⟩
  · cases c <;> exact absurd hy List.not_mem_nil
  · cases c with
    | xpendingRange count minIdle =>
      cases r with
      | error e => exact absurd hy List.not_mem_nil
      | ok ps =>
        obtain rfl := hval ps rfl
        obtain ⟨q, hq', rfl⟩ := List.mem_map.mp hy
        have hmem : q ∈ s.world.pending := List.mem_of_mem_filter (List.mem_of_mem_take hq')
        refine ⟨rfl, hq.counted q hmem, ?_⟩
        change 1 ≤ q.timesDelivered
        rw [hq.counted q hmem]
        exact List.count_pos_iff.mpr (hq.pended q hmem)
    | _ => exact absurd hy List.not_mem_nil

/-- The deliveries of an `XREADGROUP` are first deliveries. -/
theorem read_nth {a : Act} {p : Process Cmd Reply Exc Role} {c : Cmd} {w : World}
    {r : Except Exc (Reply c)} {b : Bool} (h : (system d).Answered s a p c w r b)
    (hq : QueueOk s.world) {x : Delivery} (hx : x ∈ readsOf ⟨c, r⟩) : x.nth = 1 := by
  rcases answered_cases h with ⟨-, -, e, rfl⟩ | ⟨o, rfl, -, hval⟩
  · cases c <;> exact absurd hx List.not_mem_nil
  · cases c with
    | xreadgroup consumer count =>
      cases r with
      | error e => exact absurd hx List.not_mem_nil
      | ok ds =>
        obtain rfl := hval ds rfl
        obtain ⟨e, he, rfl⟩ := List.mem_map.mp hx
        have hok : QueueOk (s.world.read s.now consumer count) := queueOk_read hq consumer count
        have hpend : (⟨e.id, consumer, 1, s.now⟩ : Pending) ∈
            (s.world.read s.now consumer count).pending :=
          List.mem_append_right _ (List.mem_map_of_mem he)
        exact (hok.counted _ hpend).symm
    | _ => exact absurd hx List.not_mem_nil

/-- The ordinal of a claimed delivery is one more than the counter was. -/
theorem claim_nth {a : Act} {p : Process Cmd Reply Exc Role} {c : Cmd} {w : World}
    {r : Except Exc (Reply c)} {b : Bool} (h : (system d).Answered s a p c w r b)
    {x : ℕ × Delivery} (hx : x ∈ claimsOf ⟨c, r⟩) :
    x.2.nth = s.world.delivered.count x.1 + 1 := by
  rcases answered_cases h with ⟨-, -, e, rfl⟩ | ⟨o, rfl, -, hval⟩
  · cases c <;> exact absurd hx List.not_mem_nil
  · cases c with
    | xclaim consumer minIdle id =>
      cases r with
      | error e => exact absurd hx List.not_mem_nil
      | ok ds =>
        have hmem : x ∈ ((s.world.claim s.now consumer minIdle id).2).map fun x => (id, x) := by
          obtain rfl := hval ds rfl
          exact hx
        have hres := @claim_result s.now s.world consumer minIdle id
        generalize s.world.claim s.now consumer minIdle id = y at hres hmem
        cases hres with
        | deleted hnone => exact absurd hmem List.not_mem_nil
        | idle => exact absurd hmem List.not_mem_nil
        | claimed e q he hid hq hqid =>
          obtain rfl := List.mem_singleton.mp hmem
          exact List.count_cons_self
    | _ => exact absurd hx List.not_mem_nil

/-- The counters that were shown, the first deliveries and the claimed ones, in order. -/
structure CountersOk (w : World) (hist : History) : Prop where
  shown : ∀ o ∈ hist, ∀ y ∈ shownBy o.event, y.2 ≤ w.delivered.count y.1 ∧ 1 ≤ y.2
  read : ∀ o ∈ hist, ∀ x ∈ readsOf o.event, x.nth = 1
  claimed : ∀ o older, o :: older <:+ hist → ∀ x ∈ claimsOf o.event, ∀ o' ∈ older,
    ∀ y ∈ shownBy o'.event, y.1 = x.1 → y.2 < x.2.nth

/-- **A count shown by `XPENDING` is below the ordinal of every later delivery.** -/
theorem reachable_counters (h : (system d).Reachable s) : CountersOk s.world s.hist := by
  have hinit : CountersOk World.init [] :=
    ⟨fun o ho => absurd ho List.not_mem_nil, fun o ho => absurd ho List.not_mem_nil,
      fun o older ho => absurd (List.suffix_nil.mp ho) (List.cons_ne_nil o older)⟩
  refine System.Reachable.history_invariant h hinit ?_
  intro t a p c w r b ht ha ih
  have hqueue := reachable_queue ht
  have hgrow : ∀ id, t.world.delivered.count id ≤ w.delivered.count id := by
    intro id
    rcases answered_cases ha with ⟨rfl, -, -⟩ | ⟨o, rfl, -, -⟩
    · exact le_rfl
    · exact exec_delivered t.now t.world c o id
  refine ⟨fun o ho y hy => ?_, fun o ho x hx => ?_, fun o older ho x hx o' ho' y hy hid => ?_⟩
  · rcases List.mem_cons.mp ho with rfl | ho
    · obtain ⟨-, hcount, hpos⟩ := shown_count ha hqueue hy
      exact ⟨hcount.le, hpos⟩
    · obtain ⟨hle, hpos⟩ := ih.shown o ho y hy
      exact ⟨hle.trans (hgrow y.1), hpos⟩
  · rcases List.mem_cons.mp ho with rfl | ho
    · exact read_nth ha hqueue hx
    · exact ih.read o ho x hx
  · rcases List.suffix_cons_iff.mp ho with heq | ho
    · obtain ⟨rfl, rfl⟩ := List.cons.inj heq
      have hle := (ih.shown o' ho' y hy).1
      rw [claim_nth ha hx, ← hid]
      omega
    · exact ih.claimed o older ho x hx o' ho' y hy hid

/-! ### Messages -/

/-- A message is of a first delivery and says so, or it is of a reclaimed delivery and its count
is too low. -/
theorem handed_cases (h : (system d).Reachable s) {m : QueueMessage} (hm : Handed s.hist m) :
    (m.nth = 1 ∧ m.deliveryCount = 1) ∨ (1 ≤ m.deliveryCount ∧ m.deliveryCount < m.nth) := by
  obtain ⟨o, ho, hcmd⟩ := hm
  obtain ⟨t, hperm, htraced⟩ := permitted_of_mem h ho
  rw [hcmd] at hperm
  have hok := reachable_counters h
  rcases hperm.2 with ⟨e, he, x, hx, rfl⟩ | ⟨e, older, hs, x, hx, e', he', n, hn, rfl⟩
  · obtain ⟨o', ho', -, rfl, -⟩ := htraced.mem he
    exact .inl ⟨hok.read o' ho' x hx, rfl⟩
  · obtain ⟨o₁, hist₁, hsuf, -, rfl, htr⟩ := htraced.older hs
    obtain ⟨o₂, ho₂, -, rfl, -⟩ := htr.mem he'
    have hmem₂ : o₂ ∈ s.hist := hsuf.subset (List.mem_cons_of_mem _ ho₂)
    exact .inr ⟨(hok.shown o₂ hmem₂ _ hn).2, hok.claimed o₁ hist₁ hsuf x hx o₂ ho₂ _ hn rfl⟩

/-- **The delivery count of an entry is right exactly when only its first delivery was handed to
`_process`.** -/
theorem countsDeliveries_iff (h : (system d).Reachable s) (id : ℕ) :
    CountsDeliveries d.maxRetries s.hist id ↔
      ∀ m, Handed s.hist m → m.msgId = id → m.nth = 1 := by
  constructor
  · rintro ⟨hcount, -⟩ m hm hid
    have heq := hcount m hm hid
    rcases handed_cases h hm with ⟨hnth, -⟩ | ⟨-, hlt⟩
    · exact hnth
    · omega
  · intro hfirst
    have hone : ∀ m, Handed s.hist m → m.msgId = id → m.nth = 1 ∧ m.deliveryCount = 1 := by
      intro m hm hid
      have hnth := hfirst m hm hid
      rcases handed_cases h hm with hcase | ⟨hpos, hlt⟩
      · exact hcase
      · omega
    refine ⟨fun m hm hid => ?_, fun passed hnodup hpassed => ?_⟩
    · obtain ⟨hnth, hcount⟩ := hone m hm hid
      rw [hnth, hcount]
    · -- only the ordinal one can be in the list, and it passes the check when it is allowed to
      have hsub : passed ⊆ List.replicate d.maxRetries 1 := by
        intro n hn
        obtain ⟨m, hm, hid, rfl, hcheck⟩ := hpassed n hn
        obtain ⟨hnth, hcount⟩ := hone m hm hid
        rw [hnth]
        exact List.mem_replicate.mpr ⟨by omega, rfl⟩
      calc passed.length ≤ (List.replicate d.maxRetries 1).length :=
            (List.subperm_of_subset hnodup hsub).length_le
        _ = d.maxRetries := List.length_replicate

/-- A worker reads the entry of the sample job and hands it to `_process`. -/
def firstDelivery : List Act :=
  submitSample ++ [.arrive (.consume (str "worker-1") true 1 (some 1)), ok 1, ok 1, ok 1, ok 1]

/-- Then that run of `_process` dies, and after the idle time a second worker reclaims the entry
and hands it to `_process`. -/
def secondDelivery : List Act :=
  firstDelivery ++ [.crash 2, .tick 60000,
    .arrive (.consume (str "worker-2") true 1 none), ok 2, ok 2, ok 2, ok 2]

/-- After its first delivery the count of an entry is right. -/
theorem countsDeliveries_iff_sample :
    ∃ s : Sys, (system .default).Reachable s ∧ CountsDeliveries 3 s.hist 1 := by
  have hreach := reachable_sampleRun firstDelivery (by decide +kernel)
  have hfirst : ∀ o ∈ (sampleRun firstDelivery).hist, ∀ m ∈ handedBy o.event.cmd, m.nth = 1 := by
    decide +kernel
  refine ⟨_, hreach, (countsDeliveries_iff hreach 1).mpr fun m hm _ => ?_⟩
  obtain ⟨o, ho, hmem⟩ := handed_iff.mp hm
  exact hfirst o ho m hmem

/-- The reclaimed delivery is the second one, and its message says it is the first. -/
theorem not_countsDeliveries :
    ∃ s : Sys, (system .default).Reachable s ∧
      ¬ CountsDeliveries Deployment.default.maxRetries s.hist 1 := by
  have hreach := reachable_sampleRun secondDelivery (by decide +kernel)
  have hcount : ∃ o ∈ (sampleRun secondDelivery).hist, ∃ m ∈ handedBy o.event.cmd,
      m.msgId = 1 ∧ m.deliveryCount ≠ m.nth := by decide +kernel
  obtain ⟨o, ho, m, hm, hid, hne⟩ := hcount
  exact ⟨_, hreach, fun h => hne (h.1 m (handed_iff.mpr ⟨o, ho, hm⟩) hid)⟩

end CodeInterpreter
