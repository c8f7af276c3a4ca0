import CodeInterpreter.Invariants.Deliveries

/-!
# No accepted job is lost

An entry leaves the stream, and the pending list, only by the `XACK` and `XDEL` of a run of
`_process` that has written a result of the job. So as long as a job has no result its entry is in
the stream, and either the group has yet to deliver it or it is pending and can be claimed.

## Main definitions

* `Held`: the entry is in the stream, undelivered or pending.

## Main results

* `held_of_exec`: a command that does not finish the job keeps its entry held.
* `accepted_job_held`: every enqueued job without a result is held, in every reachable state.
-/

namespace CodeInterpreter

open Async

variable {d : Deployment} {s : Sys} {now : ℕ} {w : World}

/-- The entry is in the stream, and the group has not delivered it yet or has it pending. -/
def Held (w : World) (e : StreamEntry) : Prop :=
  e ∈ w.stream ∧ (w.lastDelivered < e.id ∨ ∃ q ∈ w.pending, q.id = e.id)

/-! ### Results in traces -/

/-- A result that a process wrote is in the history. -/
theorem written_of_storedIn (h : (system d).Reachable s) {p : Process Cmd Reply Exc Role}
    (hp : p ∈ s.procs) {j : Str} (hst : StoredIn p.trace j) : Written s.hist j := by
  obtain ⟨e, he, r, hr⟩ := hst
  obtain ⟨o, ho, -, rfl, happ⟩ := (System.reachable_traced h p hp).mem he
  have hev := storedOf_eq_some hr
  refine ⟨o, ho, happ ?_, r, ?_⟩
  · rw [hev]
    exact ⟨(), rfl⟩
  · rw [hev]

/-- A process that may acknowledge the entry of a job has a result of the job in the history. -/
theorem written_of_finished (h : (system d).Reachable s) {p : Process Cmd Reply Exc Role}
    (hp : p ∈ s.procs) {e : StreamEntry} (he : e ∈ s.world.stream) {payload : JobPayload}
    (hpay : Enqueued s.hist payload) (hval : e.payload = payload.toValue)
    (hfin : Finished d p.role p.trace e.id) : Written s.hist payload.jobId := by
  obtain ⟨wid, m, j, hrole, hid, hj, hdone⟩ := hfin
  obtain ⟨o, ho, x, hx, hmx, hpx, -⟩ :=
    message_delivered h ((System.reachable_originates h).1 p hp) hrole
  have hagrees := ((reachable_deliveries h).2 o ho x hx).agrees e he (hid.symm.trans hmx)
  rw [hpx, ← hagrees, hval, jobIdOf_toValue] at hj
  obtain rfl := Except.ok.inj hj
  rcases hdone with hnil | hst
  · exact absurd hnil (ne_nil_of_isUlid (enqueued_ulid h hpay))
  · exact written_of_storedIn h hp hst

/-! ### Commands keep entries -/

/-- **A command keeps an entry held**, unless it is the `XACK` or the `XDEL` of that entry. -/
theorem held_of_exec (hq : QueueOk w) {e : StreamEntry} (he : Held w e) (c : Cmd) (o : Oracle)
    (hack : c ≠ .xack e.id) (hdel : c ≠ .xdel e.id) : Held (World.exec now w c o).1 e := by
  obtain ⟨hmem, hstate⟩ := he
  have hchange := @exec_queue now w c o
  generalize (World.exec now w c o).1 = w' at hchange
  cases hchange with
  | enqueue payload record => exact ⟨List.mem_append_left _ hmem, hstate⟩
  | read consumer count =>
    refine ⟨hmem, ?_⟩
    rcases hstate with hnew | ⟨q, hqm, hqid⟩
    · by_cases hle : e.id ≤ (w.read now consumer count).lastDelivered
      · right
        rcases hq.mem_batch_of_le hmem hle with hold | hbatch
        · exact absurd hnew (by omega)
        · exact ⟨_, List.mem_append_right _ (List.mem_map_of_mem hbatch), rfl⟩
      · exact .inl (by omega)
    · exact .inr ⟨q, List.mem_append_left _ hqm, hqid⟩
  | claim consumer minIdle id =>
    have hres := @claim_result now w consumer minIdle id
    generalize w.claim now consumer minIdle id = x at hres
    cases hres with
    | deleted hnone =>
      refine ⟨hmem, hstate.imp_right ?_⟩
      rintro ⟨q, hqm, hqid⟩
      exact ⟨q, List.mem_filter.mpr ⟨hqm, decide_eq_true (hqid ▸ hnone e hmem)⟩, hqid⟩
    | idle => exact ⟨hmem, hstate⟩
    | claimed e' q' _ _ _ _ =>
      refine ⟨hmem, hstate.imp_right ?_⟩
      rintro ⟨q, hqm, hqid⟩
      refine ⟨_, List.mem_map_of_mem hqm, ?_⟩
      split_ifs with hid
      · exact hid.symm.trans hqid
      · exact hqid
  | xack id =>
    refine ⟨hmem, hstate.imp_right ?_⟩
    rintro ⟨q, hqm, hqid⟩
    refine ⟨q, List.mem_filter.mpr ⟨hqm, decide_eq_true ?_⟩, hqid⟩
    rintro rfl
    exact hack (congrArg _ hqid)
  | xdel id =>
    refine ⟨List.mem_filter.mpr ⟨hmem, decide_eq_true ?_⟩, hstate⟩
    rintro rfl
    exact hdel rfl
  | other hc hsame =>
    rw [Held, hsame.stream, hsame.lastDelivered, hsame.pending]
    exact ⟨hmem, hstate⟩

/-- A pending entry of the stream is delivered by an `XCLAIM` once it has been idle long enough. -/
theorem claim_delivers (hq : QueueOk w) {e : StreamEntry} (he : e ∈ w.stream) {q : Pending}
    (hmem : q ∈ w.pending) (hid : q.id = e.id) {minIdle : ℕ} (hidle : q.since + minIdle ≤ now)
    (consumer : Str) :
    ∃ x ∈ (w.claim now consumer minIdle e.id).2, x.id = e.id ∧ x.payload = e.payload := by
  have hfind : ∃ e', w.stream.find? (fun x => x.id = e.id) = some e' := by
    rw [← Option.isSome_iff_exists, List.find?_isSome]
    exact ⟨e, he, decide_eq_true rfl⟩
  have hclaim : ∃ q', w.claimable now minIdle e.id = some q' := by
    rw [← Option.isSome_iff_exists, World.claimable, List.find?_isSome]
    exact ⟨q, hmem, decide_eq_true ⟨hid, hidle⟩⟩
  obtain ⟨e', he'⟩ := hfind
  obtain ⟨q', hq'⟩ := hclaim
  have hid' : e'.id = e.id := of_decide_eq_true
    (List.find?_some (p := fun x : StreamEntry => decide (x.id = e.id)) he')
  have hsame : e' = e := hq.entry_eq (List.mem_of_find?_eq_some he') he hid'
  simp only [World.claim, he', hq', hsame]
  exact ⟨_, List.mem_singleton_self _, rfl, rfl⟩

/-! ### The invariant -/

/-- Every enqueued job has a result or a held entry. -/
def JobsHeld (w : World) (hist : History) : Prop :=
  ∀ p, Enqueued hist p → Written hist p.jobId ∨ ∃ e, Held w e ∧ e.payload = p.toValue

theorem reachable_jobsHeld (h : (system d).Reachable s) : JobsHeld s.world s.hist := by
  have hinit : JobsHeld World.init [] := by
    rintro p ⟨o, ho, -⟩
    exact absurd ho List.not_mem_nil
  refine System.Reachable.history_invariant h hinit ?_
  intro t a p c w r b ht ha ih payload hpay
  have hqueue := reachable_queue ht
  obtain ⟨k, hk⟩ := ha.next
  have hperm := (reachable_allows ht ha.mem hk).2
  obtain ⟨o, ho, happ, record, hcmd⟩ := hpay
  rcases List.mem_cons.mp ho with rfl | ho
  · -- the job that this very command enqueues
    obtain rfl : b = true := happ
    obtain rfl : c = .enqueue payload record := hcmd
    rcases answered_cases ha with ⟨-, hfalse, -⟩ | ⟨o, rfl, -, -⟩
    · cases hfalse
    · refine .inr ⟨⟨t.world.nextId, payload.toValue⟩, ⟨?_, .inl hqueue.last⟩, rfl⟩
      exact List.mem_append_right _ (List.mem_singleton_self _)
  · have hold : Enqueued t.hist payload := ⟨o, ho, happ, record, hcmd⟩
    rcases ih payload hold with hw | ⟨e, he, hval⟩
    · exact .inl (hw.cons _)
    · rcases answered_cases ha with ⟨rfl, -, -⟩ | ⟨o, rfl, -, -⟩
      · exact .inr ⟨e, he, hval⟩
      · by_cases hack : c = .xack e.id ∨ c = .xdel e.id
        · have hfin : Finished d p.role p.trace e.id := by
            rcases hack with rfl | rfl <;> exact hperm
          exact .inl ((written_of_finished ht ha.mem he.1 hold hval hfin).cons _)
        · obtain ⟨hack, hdel⟩ := not_or.mp hack
          exact .inr ⟨e, held_of_exec hqueue he c o hack hdel, hval⟩

/-- **No accepted job is lost.** In every reachable state an enqueued job that has no result yet
has its entry in the stream; the group has yet to deliver the entry, or it is pending, and then an
`XCLAIM` delivers it once it has been idle long enough. -/
theorem accepted_job_held (h : (system d).Reachable s) {p : JobPayload}
    (hp : Enqueued s.hist p) (hw : ¬ Written s.hist p.jobId) :
    ∃ e ∈ s.world.stream, e.payload = p.toValue ∧
      (s.world.lastDelivered < e.id ∨
        ∃ q ∈ s.world.pending, q.id = e.id ∧
          ∀ now minIdle consumer, q.since + minIdle ≤ now →
            ∃ x ∈ (s.world.claim now consumer minIdle e.id).2,
              x.id = e.id ∧ x.payload = p.toValue) := by
  obtain ⟨e, ⟨hmem, hstate⟩, hval⟩ := (reachable_jobsHeld h p hp).resolve_left hw
  refine ⟨e, hmem, hval, hstate.imp_right ?_⟩
  rintro ⟨q, hqm, hqid⟩
  refine ⟨q, hqm, hqid, fun now minIdle consumer hidle => ?_⟩
  rw [← hval]
  exact claim_delivers (reachable_queue h) hmem hqm hqid hidle consumer

/-- A worker has fetched the sample job and crashes before it does anything for it. -/
def crashedDelivery : List Act := submitSample ++ completeSample.take 5 ++ [.crash 2]

/-- After the crash the job is pending, and a claim hands it out again. -/
theorem accepted_job_held_sample :
    ∃ s : Sys, (system .default).Reachable s ∧
      Enqueued s.hist (sampleSubmission sampleId).payload ∧ ¬ Written s.hist sampleId ∧
      ∃ e ∈ s.world.stream, e.payload = (sampleSubmission sampleId).payload.toValue ∧
        ∃ q ∈ s.world.pending, q.id = e.id ∧
          ∀ now minIdle consumer, q.since + minIdle ≤ now →
            ∃ x ∈ (s.world.claim now consumer minIdle e.id).2,
              x.id = e.id ∧ x.payload = (sampleSubmission sampleId).payload.toValue := by
  have hreach := reachable_sampleRun crashedDelivery (by decide +kernel)
  have henq : Enqueued (sampleRun crashedDelivery).hist (sampleSubmission sampleId).payload := by
    decide +kernel
  have hnot : ¬ Written (sampleRun crashedDelivery).hist sampleId := by decide +kernel
  have hdelivered : ∀ e ∈ (sampleRun crashedDelivery).world.stream,
      ¬ (sampleRun crashedDelivery).world.lastDelivered < e.id := by decide +kernel
  obtain ⟨e, he, hval, hnew | hpending⟩ := accepted_job_held hreach henq hnot
  · exact absurd hnew (hdelivered e he)
  · exact ⟨_, hreach, henq, hnot, e, he, hval, hpending⟩

end CodeInterpreter
