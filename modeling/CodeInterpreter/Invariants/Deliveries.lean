import CodeInterpreter.Invariants.Submissions
import Mathlib.Data.List.Nodup

/-!
# Entries and deliveries

The invariant of the job stream and its consumer group, and where the messages of the workers come
from: an entry holds an enqueued payload, a delivery shows an entry of the stream, and a run of
`_process` works on a delivered entry.

## Main definitions

* `QueueOk`: ids increase along the stream, the group's counters count the deliveries.

## Main results

* `reachable_queue`: the invariant holds in every reachable state.
* `mem_stream_of_le`: after an `XREADGROUP`, an entry up to the group's last id was delivered.
* `reachable_deliveries`: deliveries show enqueued payloads and agree with the stream.
* `message_delivered`, `handled_enqueued`: where the message of a run of `_process` comes from.
-/

namespace CodeInterpreter

open Async

variable {d : Deployment} {s : Sys} {now : ℕ} {w : World}

/-! ### The batch of an `XREADGROUP` -/

/-- The last id of the group after it delivered the batch. -/
theorem foldl_max_cases (l : List StreamEntry) (m : ℕ) :
    let last := l.foldl (fun m e => max m e.id) m
    m ≤ last ∧ (∀ e ∈ l, e.id ≤ last) ∧ (last = m ∨ ∃ e ∈ l, last = e.id) := by
  induction l generalizing m with
  | nil => exact ⟨le_rfl, fun e he => absurd he List.not_mem_nil, .inl rfl⟩
  | cons x l ih =>
    obtain ⟨hle, hmem, hcase⟩ := ih (max m x.id)
    refine ⟨(le_max_left m x.id).trans hle, fun e he => ?_, ?_⟩
    · rcases List.mem_cons.mp he with rfl | he
      · exact (le_max_right m e.id).trans hle
      · exact hmem e he
    · rcases hcase with hcase | ⟨e, he, hcase⟩
      · rcases max_choice m x.id with hm | hm
        · exact .inl (hcase.trans hm)
        · exact .inr ⟨x, List.mem_cons_self, hcase.trans hm⟩
      · exact .inr ⟨e, List.mem_cons_of_mem x he, hcase⟩

theorem mem_readBatch {count : ℕ} {e : StreamEntry} (h : e ∈ w.readBatch count) :
    e ∈ w.stream ∧ w.lastDelivered < e.id := by
  have hmem := List.mem_filter.mp (List.mem_of_mem_take h)
  exact ⟨hmem.1, of_decide_eq_true hmem.2⟩

theorem readBatch_sublist (count : ℕ) : (w.readBatch count).Sublist w.stream :=
  (List.take_sublist _ _).trans List.filter_sublist

/-! ### The invariant of the queue -/

/-- The stream is ordered by id, the group has delivered what it logged, and the pending list
counts the deliveries of its entries. -/
structure QueueOk (w : World) : Prop where
  sorted : w.stream.Pairwise fun e e' => e.id < e'.id
  below : ∀ e ∈ w.stream, e.id < w.nextId
  last : w.lastDelivered < w.nextId
  logged : ∀ id ∈ w.delivered, id ≤ w.lastDelivered
  distinct : (w.pending.map Pending.id).Nodup
  counted : ∀ p ∈ w.pending, p.timesDelivered = w.delivered.count p.id
  pended : ∀ p ∈ w.pending, p.id ∈ w.delivered

/-- An id stands for one entry. -/
theorem QueueOk.entry_eq (h : QueueOk w) {e e' : StreamEntry} (he : e ∈ w.stream)
    (he' : e' ∈ w.stream) (hid : e.id = e'.id) : e = e' := by
  have hnodup : (w.stream.map StreamEntry.id).Nodup :=
    List.Pairwise.map _ (fun _ _ hlt => hlt.ne) h.sorted
  exact List.inj_on_of_nodup_map hnodup he he' hid

/-- **What `XREADGROUP` passes over was delivered.** An entry up to the new last id of the group
was delivered before or is in the batch. -/
theorem QueueOk.mem_batch_of_le (h : QueueOk w) {consumer : Str} {count : ℕ} {e : StreamEntry}
    (he : e ∈ w.stream) (hle : e.id ≤ (w.read now consumer count).lastDelivered) :
    e.id ≤ w.lastDelivered ∨ e ∈ w.readBatch count := by
  by_cases hold : e.id ≤ w.lastDelivered
  · exact .inl hold
  right
  have hund : e ∈ w.undelivered :=
    List.mem_filter.mpr ⟨he, decide_eq_true (by omega)⟩
  obtain ⟨-, -, hlast | ⟨b, hb, hlast⟩⟩ := foldl_max_cases (w.readBatch count) w.lastDelivered
  · exact absurd (hlast ▸ hle) hold
  · have hsorted : w.undelivered.Pairwise fun e e' => e.id < e'.id :=
      h.sorted.sublist List.filter_sublist
    rw [← List.take_append_drop count w.undelivered] at hsorted hund
    rcases List.mem_append.mp hund with htake | hdrop
    · exact htake
    · have hlt : b.id < e.id := (List.pairwise_append.mp hsorted).2.2 b hb e hdrop
      have hle' : e.id ≤ b.id := hlast ▸ hle
      omega

theorem queueOk_enqueue (h : QueueOk w) (payload : JobPayload) (record : JobRecord) :
    QueueOk (w.enqueue now payload record) where
  sorted := by
    refine List.pairwise_append.mpr ⟨h.sorted, List.pairwise_singleton _ _, fun e he e' he' => ?_⟩
    rw [List.mem_singleton.mp he']
    exact h.below e he
  below := by
    intro e he
    change e.id < w.nextId + 1
    rcases List.mem_append.mp he with he | he
    · exact (h.below e he).trans (Nat.lt_succ_self _)
    · rw [List.mem_singleton.mp he]
      exact Nat.lt_succ_self _
  last := h.last.trans (Nat.lt_succ_self _)
  logged := h.logged
  distinct := h.distinct
  counted := h.counted
  pended := h.pended

theorem queueOk_read (h : QueueOk w) (consumer : Str) (count : ℕ) :
    QueueOk (w.read now consumer count) := by
  obtain ⟨hold, hbatch, hlast⟩ := foldl_max_cases (w.readBatch count) w.lastDelivered
  have hnew : ∀ e ∈ w.readBatch count, e.id ∉ w.delivered := fun e he hmem => by
    have := (mem_readBatch he).2
    have := h.logged e.id hmem
    omega
  have hnodup : ((w.readBatch count).map StreamEntry.id).Nodup :=
    List.Pairwise.map _ (fun _ _ hlt => hlt.ne) (h.sorted.sublist (readBatch_sublist count))
  have hpended : ∀ p ∈ w.pending, p.id ∉ (w.readBatch count).map StreamEntry.id := by
    intro p hp hmem
    obtain ⟨e, he, heq⟩ := List.mem_map.mp hmem
    exact hnew e he (heq ▸ h.pended p hp)
  refine ⟨h.sorted, h.below, ?_, fun id hid => ?_, ?_, fun p hp => ?_, fun p hp => ?_⟩
  · change (w.readBatch count).foldl (fun m e => max m e.id) w.lastDelivered < w.nextId
    rcases hlast with hlast | ⟨e, he, hlast⟩
    · rw [hlast]
      exact h.last
    · rw [hlast]
      exact h.below e (mem_readBatch he).1
  · rcases List.mem_append.mp hid with hid | hid
    · obtain ⟨e, he, rfl⟩ := List.mem_map.mp hid
      exact hbatch e he
    · exact (h.logged id hid).trans hold
  · change ((w.pending ++ _).map Pending.id).Nodup
    rw [List.map_append, List.map_map]
    refine List.nodup_append'.mpr ⟨h.distinct, hnodup, ?_⟩
    intro id hid
    obtain ⟨p, hp, rfl⟩ := List.mem_map.mp hid
    exact hpended p hp
  · change p.timesDelivered = ((w.readBatch count).map StreamEntry.id ++ w.delivered).count p.id
    rw [List.count_append]
    rcases List.mem_append.mp hp with hp | hp
    · rw [List.count_eq_zero.mpr (hpended p hp), Nat.zero_add]
      exact h.counted p hp
    · obtain ⟨e, he, rfl⟩ := List.mem_map.mp hp
      rw [List.count_eq_one_of_mem hnodup (List.mem_map_of_mem he),
        List.count_eq_zero.mpr (hnew e he)]
  · change p.id ∈ (w.readBatch count).map StreamEntry.id ++ w.delivered
    rcases List.mem_append.mp hp with hp | hp
    · exact List.mem_append_right _ (h.pended p hp)
    · obtain ⟨e, he, rfl⟩ := List.mem_map.mp hp
      exact List.mem_append_left _ (List.mem_map_of_mem he)

/-- Dropping pending entries keeps the invariant. -/
theorem queueOk_filter_pending (h : QueueOk w) (f : Pending → Bool) :
    QueueOk { w with pending := w.pending.filter f } where
  sorted := h.sorted
  below := h.below
  last := h.last
  logged := h.logged
  distinct := h.distinct.sublist (List.filter_sublist.map _)
  counted p hp := h.counted p (List.mem_of_mem_filter hp)
  pended p hp := h.pended p (List.mem_of_mem_filter hp)

theorem queueOk_claim (h : QueueOk w) (consumer : Str) (minIdle id : ℕ) :
    QueueOk (w.claim now consumer minIdle id).1 := by
  have hres := @claim_result now w consumer minIdle id
  generalize w.claim now consumer minIdle id = x at hres
  cases hres with
  | deleted hnone => exact queueOk_filter_pending h _
  | idle => exact h
  | claimed e p he hid hp hpid =>
    have hmap : ∀ q : Pending,
        (if q.id = id then (⟨id, consumer, q.timesDelivered + 1, now⟩ : Pending) else q).id = q.id := by
      intro q
      split_ifs with hq
      · exact hq.symm
      · rfl
    refine ⟨h.sorted, h.below, h.last, fun i hi => ?_, ?_, fun q hq => ?_, fun q hq => ?_⟩
    · rcases List.mem_cons.mp hi with rfl | hi
      · exact h.logged i (hpid ▸ h.pended p hp)
      · exact h.logged i hi
    · change ((w.pending.map _).map Pending.id).Nodup
      rw [List.map_map]
      refine (congrArg List.Nodup (List.map_congr_left fun q _ => ?_)).mpr h.distinct
      exact hmap q
    · obtain ⟨q', hq', rfl⟩ := List.mem_map.mp hq
      change _ = (id :: w.delivered).count _
      rw [hmap, List.count_cons]
      split_ifs with h₁ h₂ h₂
      · rw [h.counted q' hq']
      · exact absurd h₁.symm (by simpa using h₂)
      · exact absurd (by simpa using h₂) (Ne.symm h₁)
      · exact h.counted q' hq'
    · obtain ⟨q', hq', rfl⟩ := List.mem_map.mp hq
      rw [hmap]
      exact List.mem_cons_of_mem _ (h.pended q' hq')

theorem queueOk_xdel (h : QueueOk w) (f : StreamEntry → Bool) :
    QueueOk { w with stream := w.stream.filter f } where
  sorted := h.sorted.sublist List.filter_sublist
  below e he := h.below e (List.mem_of_mem_filter he)
  last := h.last
  logged := h.logged
  distinct := h.distinct
  counted := h.counted
  pended := h.pended

/-- Every command keeps the invariant. -/
theorem QueueOk.exec (h : QueueOk w) (c : Cmd) (o : Oracle) :
    QueueOk (World.exec now w c o).1 := by
  have hchange := @exec_queue now w c o
  generalize (World.exec now w c o).1 = w' at hchange
  cases hchange with
  | enqueue payload record => exact queueOk_enqueue h payload record
  | read consumer count => exact queueOk_read h consumer count
  | claim consumer minIdle id => exact queueOk_claim h consumer minIdle id
  | xack id => exact queueOk_filter_pending h _
  | xdel id => exact queueOk_xdel h _
  | other hc hsame =>
    obtain ⟨h₁, h₂, h₃, h₄, h₅⟩ := hsame
    constructor
    all_goals simp only [h₁, h₂, h₃, h₄, h₅]
    exacts [h.sorted, h.below, h.last, h.logged, h.distinct, h.counted, h.pended]

/-- **The queue is in order in every reachable state.** -/
theorem reachable_queue (h : (system d).Reachable s) : QueueOk s.world := by
  refine System.Reachable.history_invariant (J := fun w _ => QueueOk w) h ?_ ?_
  · exact ⟨List.Pairwise.nil, fun e he => absurd he List.not_mem_nil, Nat.zero_lt_one,
      fun id hid => absurd hid List.not_mem_nil, List.nodup_nil,
      fun p hp => absurd hp List.not_mem_nil, fun p hp => absurd hp List.not_mem_nil⟩
  · intro t a p c w r b _ ha ih
    rcases answered_cases ha with ⟨rfl, -, -⟩ | ⟨o, rfl, -, -⟩
    · exact ih
    · exact ih.exec c o

/-! ### What is delivered -/

/-- The value is the object of an enqueued payload. -/
def FromApi (hist : History) (v : Value) : Prop := ∃ p, Enqueued hist p ∧ v = p.toValue

theorem FromApi.cons {hist : History} {v : Value} (h : FromApi hist v)
    (o : Occurrence Cmd Reply Exc Role) : FromApi (o :: hist) v := by
  obtain ⟨p, hp, hv⟩ := h
  exact ⟨p, hp.cons o, hv⟩

/-- A delivery shows an enqueued payload, and it is the entry's as long as the stream holds it. -/
structure DeliveryOk (w : World) (hist : History) (x : Delivery) : Prop where
  fromApi : FromApi hist x.payload
  below : x.id < w.nextId
  agrees : ∀ e ∈ w.stream, e.id = x.id → e.payload = x.payload

/-- An entry that is in the stream after a command was there before or is the enqueued one. -/
theorem exec_stream (c : Cmd) (o : Oracle) :
    w.nextId ≤ (World.exec now w c o).1.nextId ∧
    ∀ e ∈ (World.exec now w c o).1.stream, e ∈ w.stream ∨
      ∃ payload record, c = .enqueue payload record ∧ e = ⟨w.nextId, payload.toValue⟩ := by
  have hchange := @exec_queue now w c o
  generalize (World.exec now w c o).1 = w' at hchange
  cases hchange with
  | enqueue payload record =>
    refine ⟨Nat.le_succ _, fun e he => ?_⟩
    rcases List.mem_append.mp he with he | he
    · exact .inl he
    · exact .inr ⟨payload, record, rfl, List.mem_singleton.mp he⟩
  | read consumer count => exact ⟨le_rfl, fun e he => .inl he⟩
  | claim consumer minIdle id =>
    have hres := @claim_result now w consumer minIdle id
    generalize w.claim now consumer minIdle id = x at hres
    cases hres <;> exact ⟨le_rfl, fun e he => .inl he⟩
  | xack id => exact ⟨le_rfl, fun e he => .inl he⟩
  | xdel id => exact ⟨le_rfl, fun e he => .inl (List.mem_of_mem_filter he)⟩
  | other hc hsame => exact ⟨hsame.nextId.ge, fun e he => .inl (hsame.stream ▸ he)⟩

/-- What an answered command delivered was in the stream. -/
theorem delivery_entry {a : Act} {p : Process Cmd Reply Exc Role} {c : Cmd} {w : World}
    {r : Except Exc (Reply c)} {b : Bool} (h : (system d).Answered s a p c w r b) {x : Delivery}
    (hx : x ∈ deliveriesOf ⟨c, r⟩) :
    w.stream = s.world.stream ∧ w.nextId = s.world.nextId ∧ x.nth = w.delivered.count x.id ∧
      ∃ e ∈ s.world.stream, e.id = x.id ∧ e.payload = x.payload := by
  rcases answered_cases h with ⟨-, -, e, rfl⟩ | ⟨o, rfl, -, hval⟩
  · cases c <;> exact absurd hx List.not_mem_nil
  · cases c with
    | xreadgroup consumer count =>
      cases r with
      | error e => exact absurd hx List.not_mem_nil
      | ok ds =>
        obtain rfl := hval ds rfl
        obtain ⟨e, he, rfl⟩ := List.mem_map.mp hx
        exact ⟨rfl, rfl, rfl, e, (mem_readBatch he).1, rfl, rfl⟩
    | xclaim consumer minIdle id =>
      cases r with
      | error e => exact absurd hx List.not_mem_nil
      | ok ds =>
        have hmem : x ∈ (s.world.claim s.now consumer minIdle id).2 := by
          obtain rfl := hval ds rfl
          exact hx
        have hres := @claim_result s.now s.world consumer minIdle id
        change (s.world.claim s.now consumer minIdle id).1.stream = _ ∧
          (s.world.claim s.now consumer minIdle id).1.nextId = _ ∧
          x.nth = (s.world.claim s.now consumer minIdle id).1.delivered.count x.id ∧ _
        generalize s.world.claim s.now consumer minIdle id = y at hres hmem ⊢
        cases hres with
        | deleted hnone => exact absurd hmem List.not_mem_nil
        | idle => exact absurd hmem List.not_mem_nil
        | claimed e q he hid hq hqid =>
          obtain rfl := List.mem_singleton.mp hmem
          exact ⟨rfl, rfl, rfl, e, he, hid, rfl⟩
    | _ => exact absurd hx List.not_mem_nil

/-- The entries of the stream and the deliveries of the history are in order. -/
def DeliveriesOk (w : World) (hist : History) : Prop :=
  (∀ e ∈ w.stream, FromApi hist e.payload) ∧
  ∀ o ∈ hist, ∀ x ∈ deliveriesOf o.event, DeliveryOk w hist x

/-- **Deliveries show what the API enqueued.** -/
theorem reachable_deliveries (h : (system d).Reachable s) : DeliveriesOk s.world s.hist := by
  have hinit : DeliveriesOk World.init [] :=
    ⟨fun e he => absurd he List.not_mem_nil, fun o ho => absurd ho List.not_mem_nil⟩
  refine System.Reachable.history_invariant h hinit ?_
  rintro t a p c w r b ht ha ⟨ihs, ihd⟩
  have hqueue := reachable_queue ht
  obtain ⟨hnext, hstream⟩ : t.world.nextId ≤ w.nextId ∧ ∀ e ∈ w.stream, e ∈ t.world.stream ∨
      (b = true ∧ ∃ payload record, c = .enqueue payload record ∧
        e = ⟨t.world.nextId, payload.toValue⟩) := by
    rcases answered_cases ha with ⟨rfl, -, -⟩ | ⟨o, rfl, rfl, -⟩
    · exact ⟨le_rfl, fun e he => .inl he⟩
    · obtain ⟨h₁, h₂⟩ := @exec_stream t.now t.world c o
      exact ⟨h₁, fun e he => (h₂ e he).imp_right fun h => ⟨rfl, h⟩⟩
  refine ⟨fun e he => ?_, fun o ho x hx => ?_⟩
  · rcases hstream e he with he | ⟨rfl, payload, record, rfl, rfl⟩
    · exact (ihs e he).cons _
    · exact ⟨payload, ⟨_, List.mem_cons_self, rfl, record, rfl⟩, rfl⟩
  · rcases List.mem_cons.mp ho with rfl | ho
    · obtain ⟨hsame, hid, -, e, he, hex, hpx⟩ := delivery_entry ha hx
      refine ⟨hpx ▸ (ihs e he).cons _, ?_, fun e' he' hex' => ?_⟩
      · rw [hid, ← hex]
        exact hqueue.below e he
      · rw [hqueue.entry_eq (hsame ▸ he') he (hex'.trans hex.symm)]
        exact hpx
    · obtain ⟨hapi, hbelow, hagrees⟩ := ihd o ho x hx
      refine ⟨hapi.cons _, hbelow.trans_le hnext, fun e he hex => ?_⟩
      rcases hstream e he with he | ⟨-, payload, record, -, rfl⟩
      · exact hagrees e he hex
      · exact absurd hex hbelow.ne'

/-! ### Messages -/

/-- A fetched message shows a delivery of the trace. -/
theorem Fetched.delivery {t : Trace} {m : QueueMessage} (h : Fetched t m) :
    ∃ e ∈ t, ∃ x ∈ deliveriesOf e, m.msgId = x.id ∧ m.payload = x.payload ∧ m.nth = x.nth := by
  rcases h with ⟨e, he, x, hx, rfl⟩ | ⟨e, older, hs, x, hx, -, -, n, -, rfl⟩
  · refine ⟨e, he, x, ?_, rfl, rfl, rfl⟩
    obtain ⟨c, r⟩ := e
    cases c <;> cases r <;> first | exact hx | exact absurd hx List.not_mem_nil
  · refine ⟨e, hs.subset List.mem_cons_self, x.2, ?_, rfl, rfl, rfl⟩
    obtain ⟨c, r⟩ := e
    cases c <;> cases r <;> first | exact absurd hx List.not_mem_nil | skip
    obtain ⟨y, hy, rfl⟩ := List.mem_map.mp hx
    exact hy

/-- A message of a run of `_process` was dispatched by a consume loop that had fetched it. -/
theorem delivery_dispatched {role : Role} {m : QueueMessage} {wid : Str}
    (ho : (system d).Originates s role) (hrole : role = .delivery wid m) :
    ∃ o ∈ s.hist, o.event.cmd = .createTask m := by
  subst hrole
  rcases ho with ⟨q, -, hq⟩ | ⟨o, ho, x, hx, hrole⟩
  · change (handler d q).1 = _ at hq
    cases q <;> cases hq
  · refine ⟨o, ho, ?_⟩
    change x ∈ fork d o.role o.event.cmd at hx
    unfold fork at hx
    split at hx
    · rename_i w' m' _ hcmd
      obtain rfl := List.mem_singleton.mp hx
      cases hrole
      exact hcmd
    · exact absurd hx List.not_mem_nil

/-- **A run of `_process` works on a delivered entry.** -/
theorem message_delivered (h : (system d).Reachable s) {role : Role} {m : QueueMessage} {wid : Str}
    (ho : (system d).Originates s role) (hrole : role = .delivery wid m) :
    ∃ o ∈ s.hist, ∃ x ∈ deliveriesOf o.event,
      m.msgId = x.id ∧ m.payload = x.payload ∧ m.nth = x.nth := by
  obtain ⟨o, hmem, hcmd⟩ := delivery_dispatched ho hrole
  obtain ⟨t, hperm, hrec⟩ := permitted_of_mem h hmem
  rw [hcmd] at hperm
  obtain ⟨e, he, x, hx, hm⟩ := hperm.2.delivery
  obtain ⟨o', ho', -, rfl, -⟩ := hrec.mem he
  exact ⟨o', ho', x, hx, hm⟩

/-- The job of a run of `_process` was enqueued, with the payload of its message. -/
theorem handled_enqueued (h : (system d).Reachable s) {role : Role} {j : Str}
    (ho : (system d).Originates s role) (hj : HandlesJob d role j) :
    ∃ p, Enqueued s.hist p ∧ p.jobId = j := by
  obtain ⟨wid, m, hrole, hid⟩ := hj
  obtain ⟨o, hmem, x, hx, -, hpay, -⟩ := message_delivered h ho hrole
  obtain ⟨p, hp, hval⟩ := ((reachable_deliveries h).2 o hmem x hx).fromApi
  rw [hpay, hval, jobIdOf_toValue] at hid
  exact ⟨p, hp, Except.ok.inj hid⟩

end CodeInterpreter
