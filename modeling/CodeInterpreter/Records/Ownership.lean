import CodeInterpreter.Invariants.Submissions

/-!
# Job records are owner-scoped

Every writer of a record starts from a copy of the stored one and keeps its user, so the record of
a job always names the principal who submitted it. The routes compare that name with the principal
who asks: `GET` shows the record to the submitter only, and `DELETE` by anybody else changes
nothing.

## Main definitions

* `SubmittedBy`: the principal of the submission that enqueued a job.
* `OwnerScoped`: the three guarantees about a state.

## Main results

* `reachable_ownerScoped`: they hold in every reachable state.
-/

namespace CodeInterpreter

open Async

variable {d : Deployment} {s : Sys}

/-- A submission of the principal has enqueued the job. -/
def SubmittedBy (d : Deployment) (hist : History) (jobId : Str) (principal : Principal) : Prop :=
  ∃ o ∈ hist, o.applied = true ∧ (∃ payload record, o.event.cmd = .enqueue payload record) ∧
    ∃ sub, submissionOf d o.role = some sub ∧ sub.jobId = jobId ∧ sub.principal = principal

/-- Nobody with the user id of the principal has submitted the job. -/
def Foreign (d : Deployment) (hist : History) (principal : Principal) (jobId : Str) : Prop :=
  ∀ submitter, SubmittedBy d hist jobId submitter → submitter.userId ≠ principal.userId

/-- The record of a job names its one submitter; `GET` answers with a record only to the submitter
of the job; and a step of a `DELETE` by another principal changes no record, no cancellation flag
and no concurrency slot. -/
structure OwnerScoped (d : Deployment) (s : Sys) : Prop where
  record : ∀ j x, s.world.record j = some x → ∃ submitter, SubmittedBy d s.hist j submitter ∧
    x.value.userId = submitter.userId ∧ ∀ other, SubmittedBy d s.hist j other → other = submitter
  get : ∀ o ∈ s.hist, ∀ record, o.event.cmd = .respond (.jobRecord record) →
    ∃ principal j submitter, o.role = .getJob principal j ∧ SubmittedBy d s.hist j submitter ∧
      submitter.userId = principal.userId ∧ record.userId = principal.userId
  delete : ∀ i a q s' principal j, s.procs[i]? = some q → q.role = .deleteJob principal j →
    Foreign d s.hist principal j → (system d).step s (.answer i a) = some s' →
    s'.world.record = s.world.record ∧ s'.world.cancel = s.world.cancel ∧
      s'.world.slots = s.world.slots

/-- An enqueued payload names the principal of its submission. -/
theorem submittedBy_of_submitted (h : (system d).Reachable s) {j u : Str}
    (hs : Submitted s.hist j u) : ∃ submitter, SubmittedBy d s.hist j submitter ∧
      submitter.userId = u := by
  obtain ⟨p, ⟨o, ho, happ, r, hcmd⟩, rfl, rfl⟩ := hs
  obtain ⟨sub, hsub, rfl, -⟩ := enqueue_submission h ho hcmd
  exact ⟨sub.principal, ⟨o, ho, happ, ⟨_, r, hcmd⟩, sub, hsub, rfl, rfl⟩, rfl⟩

/-- A job has one submitter. -/
theorem submittedBy_unique (h : (system d).Reachable s) {j : Str} {submitter other : Principal}
    (hs : SubmittedBy d s.hist j submitter) (hs' : SubmittedBy d s.hist j other) :
    other = submitter := by
  obtain ⟨o, ho, -, -, sub, hsub, hj, rfl⟩ := hs
  obtain ⟨o', ho', -, -, sub', hsub', hj', rfl⟩ := hs'
  obtain ⟨-, rfl⟩ := submission_eq h ((System.reachable_originates h).2 o ho)
    ((System.reachable_originates h).2 o' ho') hsub hsub' (hj.trans hj'.symm)
  rfl

/-- What a process read was submitted by the user it names. -/
theorem submitted_of_read (h : (system d).Reachable s) {p : Process Cmd Reply Exc Role}
    (hp : p ∈ s.procs) {e : Event Cmd Reply Exc} (he : e ∈ p.trace) {j : Str} {record : JobRecord}
    (hread : readOf e = some (j, record)) : Submitted s.hist j record.userId := by
  obtain ⟨o, ho, -, rfl, -⟩ := (System.reachable_traced h p hp).mem he
  exact (reachable_owners h).2 o ho j record hread

/-- A `DELETE` that may cancel the job or release its slot has read a record of its principal. -/
theorem delete_submitted (h : (system d).Reachable s) {p : Process Cmd Reply Exc Role}
    (hp : p ∈ s.procs) {principal : Principal} {j : Str} (hrole : p.role = .deleteJob principal j)
    {c : Cmd} (hperm : Permits d p.role p.trace c)
    (hc : (∃ j' record, c = .cancelMulti j' record) ∨ ∃ u j', c = .zrem u j') :
    Submitted s.hist j principal.userId := by
  rw [hrole] at hperm
  rcases hc with ⟨j', record, rfl⟩ | ⟨u, j', rfl⟩
  · obtain ⟨p', old, heq, hread, howner, -⟩ := hperm
    cases heq
    obtain ⟨e, he, hread⟩ := Option.bind_eq_some_iff.mp hread
    rw [← howner]
    exact submitted_of_read h hp (List.mem_of_mem_head? he) hread
  · obtain ⟨-, -, e, he, old, hread, howner⟩ := hperm
    rw [← howner]
    exact submitted_of_read h hp he hread

/-- The commands of a `DELETE` of another user's job leave the keys alone. -/
theorem delete_foreign (h : (system d).Reachable s) {p : Process Cmd Reply Exc Role}
    (hp : p ∈ s.procs) {principal : Principal} {j : Str} (hrole : p.role = .deleteJob principal j)
    (hforeign : Foreign d s.hist principal j) {c : Cmd} (hperm : Permits d p.role p.trace c)
    (now : ℕ) (o : Oracle) :
    (World.exec now s.world c o).1.record = s.world.record ∧
    (World.exec now s.world c o).1.cancel = s.world.cancel ∧
    (World.exec now s.world c o).1.slots = s.world.slots := by
  have hno : ¬ ((∃ j' record, c = .cancelMulti j' record) ∨ ∃ u j', c = .zrem u j') := by
    intro hc
    obtain ⟨submitter, hsub, hu⟩ :=
      submittedBy_of_submitted h (delete_submitted h hp hrole hperm hc)
    exact hforeign submitter hsub hu
  have hcancel : ∀ j' record, c ≠ .cancelMulti j' record := fun j' record hc =>
    hno (.inl ⟨j', record, hc⟩)
  refine ⟨?_, ?_, ?_⟩
  · cases exec_record c o with
    | enqueue payload record hw =>
      obtain ⟨sub, hsub, -⟩ := hperm
      rw [hrole] at hsub
      cases hsub
    | write jobId record hc hw =>
      rcases hc with rfl | rfl
      · obtain ⟨⟨wid, m, heq, -⟩, -⟩ := hperm
        rw [hrole] at heq
        cases heq
      · exact absurd rfl (hcancel jobId record)
    | other hc hw => exact hw
  · cases exec_cancel c o with
    | cancel jobId record hw => exact absurd rfl (hcancel jobId record)
    | other hc hw => exact hw
  · cases exec_slots c o with
    | acquire userId jobId limit ttlMs hw =>
      obtain ⟨sub, hsub, -⟩ := hperm
      rw [hrole] at hsub
      cases hsub
    | zrem userId jobId hw => exact absurd (.inr ⟨userId, jobId, rfl⟩) hno
    | other ha hz hw => exact hw

/-- **Job records are owner-scoped** in every reachable state. -/
theorem reachable_ownerScoped (h : (system d).Reachable s) : OwnerScoped d s where
  record := by
    intro j x hx
    obtain ⟨submitter, hsub, hu⟩ := submittedBy_of_submitted h ((reachable_owners h).1 j x hx)
    exact ⟨submitter, hsub, hu.symm, fun other hother => submittedBy_unique h hsub hother⟩
  get := by
    intro o ho record hcmd
    obtain ⟨t, hperm, hrec⟩ := permitted_of_mem h ho
    rw [hcmd] at hperm
    obtain ⟨principal, j, hrole, ⟨e, he, hread⟩, howner⟩ := hperm
    obtain ⟨o', ho', -, rfl, -⟩ := hrec.mem he
    obtain ⟨submitter, hsub, hu⟩ :=
      submittedBy_of_submitted h ((reachable_owners h).2 o' ho' j record hread)
    exact ⟨principal, j, submitter, hrole, hsub, hu.trans howner, howner⟩
  delete := by
    intro i a q s' principal j hq hrole hforeign hs
    cases System.step_cases hs with
    | answer _ _ p c k w r b hi hp hr =>
      obtain rfl : q = p := Option.some.inj (hq.symm.trans hi)
      have hmem : q ∈ s.procs := List.mem_of_getElem? hi
      have hperm := (reachable_allows h hmem hp).2
      cases System.responds_of_respond hr with
      | reply o => exact delete_foreign h hmem hrole hforeign hperm s.now o
      | lost hf e => exact ⟨rfl, rfl, rfl⟩
      | unheard hf e o => exact delete_foreign h hmem hrole hforeign hperm s.now o

/-- Anna submits a job and reads its record, and Bob's `DELETE` of the job reads the record too:
five answered commands. -/
theorem reachable_ownerScoped_sample :
    ∃ s : Sys, (system .default).Reachable s ∧ s.hist.length = 5 ∧ OwnerScoped .default s := by
  have hreach := reachable_sampleRun (submitSample ++
    [.arrive (.getJob anna sampleId), ok 1, ok 1,
      .arrive (.deleteJob ⟨str "bob", .authenticated, .jwt⟩ sampleId), ok 2]) (by decide +kernel)
  exact ⟨_, hreach, by decide +kernel, reachable_ownerScoped hreach⟩

end CodeInterpreter
