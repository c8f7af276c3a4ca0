import CodeInterpreter.Api.Kept
import CodeInterpreter.Redis.Effects

/-!
# Submissions

Job ids are drawn once, so a job has one submission: one request, one process that handles it, one
payload that is enqueued at most once. Its record exists only after that; it is rewritten by three
programs, `DELETE`, `set_running` and `store_terminal`, each of which reads the record and writes a
changed copy back with the next command.

## Main definitions

* `recordWrite`: the commands that rewrite a record.

## Main results

* `reachable_permitted`: every command of the history was permitted when it was issued.
* `enqueued_eq`: two enqueued payloads of one job are the same payload.
* `enqueued_ulid`: the id of an enqueued job is a ULID.
* `enqueue_first`: a process that is about to enqueue a job is the first one to do so.
* `read_of_recordWrite`: what a process that is about to rewrite a record has just read.
* `reachable_owners`: records carry the user who submitted the job.
* `record_enqueued`: only enqueued jobs have a record.
-/

namespace CodeInterpreter

open Async

variable {d : Deployment} {s : Sys}

/-- **Every command of the history was permitted**, after a trace that is part of the older
history. -/
theorem reachable_permitted (h : (system d).Reachable s) {o : Occurrence Cmd Reply Exc Role}
    {older : History} (ho : o :: older <:+ s.hist) :
    ∃ t, Permits d o.role t o.event.cmd ∧ System.Traced older o.role t := by
  obtain ⟨t, ht, hrec⟩ := System.reachable_allowed h (D := discipline d)
    (fun _ ht => reachable_discipline ht) o older ho
  exact ⟨t, ht.2, hrec⟩

/-- The same for a member of the history. -/
theorem permitted_of_mem (h : (system d).Reachable s) {o : Occurrence Cmd Reply Exc Role}
    (ho : o ∈ s.hist) :
    ∃ t, Permits d o.role t o.event.cmd ∧ System.Traced s.hist o.role t := by
  obtain ⟨older, newer, heq⟩ := List.append_of_mem ho
  have hsuf : o :: newer <:+ s.hist := ⟨older, heq.symm⟩
  obtain ⟨t, ht, hrec⟩ := reachable_permitted h hsuf
  exact ⟨t, ht, hrec.mono ((List.sublist_cons_self o newer).trans hsuf.sublist)⟩

/-! ### One request for each job -/

/-- The job id of a request is that of the submission its process handles. -/
theorem jobId_handler (q : Request) :
    q.jobId = (submissionOf d (handler d q).1).map Api.Submission.jobId := by
  cases q with
  | streamStart conn ip frame => cases frame <;> rfl
  | _ => rfl

/-- The arrived requests carry different ULIDs as job ids. -/
def ArrivalsOk (arrivals : List Request) : Prop :=
  (∀ q ∈ arrivals, ∀ j, q.jobId = some j → Api.isUlid j = true) ∧
  ∀ q ∈ arrivals, ∀ q' ∈ arrivals, ∀ j, q.jobId = some j → q'.jobId = some j → q = q'

/-- What the admission of a request with a job id says. -/
theorem admits_jobId {arrivals : List Request} {q : Request} (h : Request.admits arrivals q = true)
    {j : Str} (hj : q.jobId = some j) :
    Api.isUlid j = true ∧ ∀ q' ∈ arrivals, q'.jobId ≠ some j := by
  simp only [Request.admits, hj, Option.all_some, Bool.and_eq_true, List.all_eq_true,
    bne_iff_ne] at h
  exact h.1

theorem reachable_arrivals (h : (system d).Reachable s) : ArrivalsOk s.arrivals := by
  refine System.Reachable.invariant (I := fun s => ArrivalsOk s.arrivals) h ?_ ?_
  · exact ⟨fun q hq => absurd hq List.not_mem_nil, fun q hq => absurd hq List.not_mem_nil⟩
  rintro t a t' - ⟨hulid, hdistinct⟩ hs
  cases System.step_cases hs with
  | arrive q hq =>
    have hnew : ∀ j, q.jobId = some j → Api.isUlid j = true ∧ ∀ q' ∈ t.arrivals, q'.jobId ≠ some j :=
      fun j hj => admits_jobId hq hj
    refine ⟨fun q₁ h₁ j hj => ?_, fun q₁ h₁ q₂ h₂ j hj₁ hj₂ => ?_⟩
    · rcases List.mem_cons.mp h₁ with rfl | h₁
      · exact (hnew j hj).1
      · exact hulid q₁ h₁ j hj
    · rcases List.mem_cons.mp h₁ with rfl | hold₁ <;> rcases List.mem_cons.mp h₂ with rfl | hold₂
      · rfl
      · exact absurd hj₂ ((hnew j hj₁).2 q₂ hold₂)
      · exact absurd hj₁ ((hnew j hj₂).2 q₁ hold₁)
      · exact hdistinct q₁ hold₁ q₂ hold₂ j hj₁ hj₂
  | answer i a p c k w r b hi hp hr => exact ⟨hulid, hdistinct⟩
  | crash i hi => exact ⟨hulid, hdistinct⟩
  | tick n => exact ⟨hulid, hdistinct⟩

/-- Forked processes handle no submission. -/
theorem submissionOf_fork {role role' : Role} {c : Cmd} {p : Prog Unit}
    (h : (role', p) ∈ fork d role c) : submissionOf d role' = none := by
  unfold fork at h
  split at h
  · cases List.mem_singleton.mp h
    rfl
  · exact absurd h List.not_mem_nil

/-- A submission that is handled has arrived. -/
theorem submission_arrived {role : Role} {sub : Api.Submission}
    (ho : (system d).Originates s role) (hsub : submissionOf d role = some sub) :
    ∃ q ∈ s.arrivals, (handler d q).1 = role ∧ q.jobId = some sub.jobId := by
  rcases ho with ⟨q, hq, hrole⟩ | ⟨o, -, ⟨role', p⟩, hx, hrole⟩
  · refine ⟨q, hq, hrole, ?_⟩
    change (handler d q).1 = role at hrole
    rw [jobId_handler (d := d), hrole, hsub]
    rfl
  · change role' = role at hrole
    subst hrole
    rw [submissionOf_fork hx] at hsub
    cases hsub

/-- One job has one submission. -/
theorem submission_eq (h : (system d).Reachable s) {role role' : Role} {sub sub' : Api.Submission}
    (ho : (system d).Originates s role) (ho' : (system d).Originates s role')
    (hsub : submissionOf d role = some sub) (hsub' : submissionOf d role' = some sub')
    (hj : sub.jobId = sub'.jobId) : role = role' ∧ sub = sub' := by
  obtain ⟨q, hq, hrole, hqj⟩ := submission_arrived ho hsub
  obtain ⟨q', hq', hrole', hqj'⟩ := submission_arrived ho' hsub'
  obtain rfl := (reachable_arrivals h).2 q hq q' hq' sub.jobId hqj (hj ▸ hqj')
  obtain rfl : role = role' := hrole.symm.trans hrole'
  exact ⟨rfl, Option.some.inj (hsub.symm.trans hsub')⟩

/-! ### One payload for each job -/

/-- An enqueued payload is the payload of a submission that its process handled. -/
theorem enqueue_submission (h : (system d).Reachable s) {o : Occurrence Cmd Reply Exc Role}
    (ho : o ∈ s.hist) {payload : JobPayload} {record : JobRecord}
    (hc : o.event.cmd = .enqueue payload record) :
    ∃ sub, submissionOf d o.role = some sub ∧ payload = sub.payload ∧ record = sub.record := by
  obtain ⟨t, ht, -⟩ := permitted_of_mem h ho
  rw [hc] at ht
  obtain ⟨sub, hsub, hp, hr, -⟩ := ht
  exact ⟨sub, hsub, hp, hr⟩

/-- Two enqueues of one job are by one process, of one payload. -/
theorem enqueue_eq (h : (system d).Reachable s) {o o' : Occurrence Cmd Reply Exc Role}
    (ho : o ∈ s.hist) (ho' : o' ∈ s.hist) {p p' : JobPayload} {r r' : JobRecord}
    (hc : o.event.cmd = .enqueue p r) (hc' : o'.event.cmd = .enqueue p' r')
    (hj : p.jobId = p'.jobId) : o.role = o'.role ∧ p = p' := by
  obtain ⟨sub, hsub, rfl, -⟩ := enqueue_submission h ho hc
  obtain ⟨sub', hsub', rfl, -⟩ := enqueue_submission h ho' hc'
  obtain ⟨hrole, rfl⟩ := submission_eq h ((System.reachable_originates h).2 o ho)
    ((System.reachable_originates h).2 o' ho') hsub hsub' hj
  exact ⟨hrole, rfl⟩

theorem enqueued_eq (h : (system d).Reachable s) {p p' : JobPayload} (hp : Enqueued s.hist p)
    (hp' : Enqueued s.hist p') (hj : p.jobId = p'.jobId) : p = p' := by
  obtain ⟨o, ho, -, r, hc⟩ := hp
  obtain ⟨o', ho', -, r', hc'⟩ := hp'
  exact (enqueue_eq h ho ho' hc hc' hj).2

theorem enqueued_ulid (h : (system d).Reachable s) {p : JobPayload} (hp : Enqueued s.hist p) :
    Api.isUlid p.jobId = true := by
  obtain ⟨o, ho, -, r, hc⟩ := hp
  obtain ⟨sub, hsub, rfl, -⟩ := enqueue_submission h ho hc
  obtain ⟨q, hq, -, hqj⟩ := submission_arrived ((System.reachable_originates h).2 o ho) hsub
  exact (reachable_arrivals h).1 q hq _ hqj

/-- A ULID is not empty. -/
theorem ne_nil_of_isUlid {j : Str} (h : Api.isUlid j = true) : j ≠ [] := by
  rintro rfl
  exact absurd h (by decide)

/-- The worker reads the job id back from a payload. -/
theorem jobIdOf_toValue (py : Python) (p : JobPayload) :
    Worker.jobIdOf py p.toValue = .ok p.jobId := rfl

/-! ### The enqueue comes first -/

/-- The roles do not handle submissions of one job. -/
def Apart (d : Deployment) (role role' : Role) : Prop :=
  ∀ sub sub', submissionOf d role = some sub → submissionOf d role' = some sub' →
    sub.jobId ≠ sub'.jobId

/-- A new request is for a job that no process handles the submission of. -/
theorem apart_of_admits {q : Request}
    (hq : Request.admits s.arrivals q = true) {role : Role} (ho : (system d).Originates s role) :
    Apart d role (handler d q).1 := by
  intro sub sub' hsub hsub' hj
  obtain ⟨q', hq', -, hqj'⟩ := submission_arrived ho hsub
  have hqj : q.jobId = some sub'.jobId := by rw [jobId_handler (d := d), hsub', Option.map_some]
  exact (admits_jobId hq hqj).2 q' hq' (hj ▸ hqj')

/-- The processes handle submissions of different jobs. -/
theorem reachable_apart (h : (system d).Reachable s) :
    (s.procs.map Process.role).Pairwise (Apart d) := by
  refine System.Reachable.invariant (I := fun s => (s.procs.map Process.role).Pairwise (Apart d)) h
    List.Pairwise.nil ?_
  intro t a t' ht ih hs
  cases System.step_cases hs with
  | arrive q hq =>
    rw [List.map_append, List.map_singleton, List.pairwise_append]
    refine ⟨ih, List.pairwise_singleton _ _, fun role hrole role' hrole' => ?_⟩
    obtain ⟨p, hp, rfl⟩ := List.mem_map.mp hrole
    rw [List.mem_singleton.mp hrole']
    exact apart_of_admits hq ((System.reachable_originates ht).1 p hp)
  | answer i a p c k w r b hi hp hr =>
    rw [System.roles_after hi, List.pairwise_append]
    have hnone : ∀ role ∈ ((system d).forked p.role c r).map Process.role,
        submissionOf d role = none := by
      intro role hrole
      obtain ⟨q, hq, rfl⟩ := List.mem_map.mp hrole
      obtain ⟨x, hx, rfl⟩ := System.mem_forked hq
      exact submissionOf_fork hx
    refine ⟨ih, List.pairwise_of_forall_mem_list fun role hrole _ _ sub _ hsub => ?_,
      fun role _ role' hrole' sub sub' _ hsub' => ?_⟩
    · rw [hnone role hrole] at hsub
      cases hsub
    · rw [hnone role' hrole'] at hsub'
      cases hsub'
  | crash i hi => exact ih.sublist ((List.eraseIdx_sublist _ i).map _)
  | tick n => exact ih

/-- Two processes that handle submissions of one job are the same process. -/
theorem index_eq_of_jobId (h : (system d).Reachable s) {i j : ℕ} {p q : Process Cmd Reply Exc Role}
    {sub sub' : Api.Submission} (hi : s.procs[i]? = some p) (hj : s.procs[j]? = some q)
    (hsub : submissionOf d p.role = some sub) (hsub' : submissionOf d q.role = some sub')
    (hid : sub.jobId = sub'.jobId) : i = j := by
  obtain ⟨hi', rfl⟩ := List.getElem?_eq_some_iff.mp hi
  obtain ⟨hj', rfl⟩ := List.getElem?_eq_some_iff.mp hj
  have hpair := List.pairwise_iff_getElem.mp (reachable_apart h)
  simp only [List.length_map, List.getElem_map] at hpair
  rcases Nat.lt_trichotomy i j with hlt | heq | hlt
  · exact absurd hid (hpair i j hi' hj' hlt sub sub' hsub hsub')
  · exact heq
  · exact absurd hid.symm (hpair j i hj' hi' hlt sub' sub hsub' hsub)

/-- The job of a process that handles a submission is enqueued by this process only. -/
theorem reachable_enqueuer (h : (system d).Reachable s) : ∀ p ∈ s.procs, ∀ sub,
    submissionOf d p.role = some sub → ∀ o ∈ s.hist, ∀ payload record,
      o.event.cmd = .enqueue payload record → payload.jobId = sub.jobId → ¬ Unqueued p.trace := by
  refine System.Reachable.invariant (I := fun s => ∀ p ∈ s.procs, ∀ sub,
    submissionOf d p.role = some sub → ∀ o ∈ s.hist, ∀ payload record,
      o.event.cmd = .enqueue payload record → payload.jobId = sub.jobId → ¬ Unqueued p.trace) h
    (fun p hp => absurd hp List.not_mem_nil) ?_
  intro t a t' ht ih hs
  cases System.step_cases hs with
  | arrive q hq =>
    intro p hp sub hsub o ho payload record hcmd hj
    rcases List.mem_append.mp hp with hp | hp
    · exact ih p hp sub hsub o ho payload record hcmd hj
    · rw [List.mem_singleton.mp hp] at hsub
      obtain ⟨sub', hsub', rfl, -⟩ := enqueue_submission ht ho hcmd
      exact absurd hj
        (apart_of_admits hq ((System.reachable_originates ht).2 o ho) sub' sub hsub' hsub)
  | answer i a p c k w r b hi hpc hr =>
    intro q hq sub hsub o ho payload record hcmd hj
    obtain ⟨n, hn⟩ := List.mem_iff_getElem?.mp hq
    rcases System.getElem?_procs_after hn with ⟨rfl, rfl⟩ | ⟨hne, hold⟩ | hq
    · -- the process that was answered: its own event is in its trace
      rcases List.mem_cons.mp ho with rfl | ho
      · exact fun hun => hun _ List.mem_cons_self payload record hcmd
      · intro hun
        exact ih p (List.mem_of_getElem? hi) sub hsub o ho payload record hcmd hj
          fun e he => hun e (List.mem_cons_of_mem _ he)
    · rcases List.mem_cons.mp ho with rfl | ho
      · obtain rfl : c = .enqueue payload record := hcmd
        obtain ⟨sub', hsub', rfl, -⟩ := (reachable_allows ht (List.mem_of_getElem? hi) hpc).2
        exact absurd (index_eq_of_jobId ht hold hi hsub hsub' hj.symm) hne
      · exact ih q (List.mem_of_getElem? hold) sub hsub o ho payload record hcmd hj
    · obtain ⟨x, hx, rfl⟩ := System.mem_forked hq
      rw [show (Process.start x).role = x.1 from rfl, submissionOf_fork hx] at hsub
      cases hsub
  | crash i hi => exact fun p hp => ih p (List.mem_of_mem_eraseIdx hp)
  | tick n => exact ih

/-- **The enqueue of a job comes first.** When a process is about to enqueue a job, no process has
enqueued it before. -/
theorem enqueue_first (h : (system d).Reachable s) {p : Process Cmd Reply Exc Role}
    (hp : p ∈ s.procs) {payload : JobPayload} {record : JobRecord}
    {k : Except Exc (Reply (.enqueue payload record)) → Prog Unit}
    (hc : p.prog = .call (.enqueue payload record) k) :
    ∀ o ∈ s.hist, ∀ payload' record', o.event.cmd = .enqueue payload' record' →
      payload'.jobId ≠ payload.jobId := by
  intro o ho payload' record' hcmd hj
  obtain ⟨sub, hsub, rfl, -, hun, -⟩ := (reachable_allows h hp hc).2
  exact reachable_enqueuer h p hp sub hsub o ho payload' record' hcmd hj hun

/-! ### Rewriting a record -/

/-- The record that a command rewrites: the `SET` of `patch_record` and the `MULTI` of `DELETE`. -/
def recordWrite : Cmd → Option (Str × JobRecord)
  | .setRecord j record => some (j, record)
  | .cancelMulti j record => some (j, record)
  | _ => none

theorem recordWrite_eq_some {c : Cmd} {j : Str} {record : JobRecord} :
    recordWrite c = some (j, record) ↔ c = .setRecord j record ∨ c = .cancelMulti j record := by
  cases c <;> simp [recordWrite]

/-- What a process has read that is about to rewrite a record, and what it writes. -/
inductive Rewrites (d : Deployment) (role : Role) (t : Trace) (j : Str) (old : JobRecord) :
    JobRecord → Prop
  | cancel (principal : Principal) (hrole : role = .deleteJob principal j)
      (hterm : ¬ old.status.Terminal) : Rewrites d role t j old (Api.killedRecord old)
  | running (w : Str) (hj : HandlesJob d role j) (hmid : midStore t = none) :
      Rewrites d role t j old (Worker.runningFields w old)
  | terminal (r : ExecutionResult) (w : Str) (hj : HandlesJob d role j)
      (hmid : midStore t = some (j, r)) : Rewrites d role t j old (Worker.terminalFields r w old)

/-- **Every rewrite of a record follows a read of it.** -/
theorem read_of_recordWrite (h : (system d).Reachable s) {p : Process Cmd Reply Exc Role}
    (hp : p ∈ s.procs) {c : Cmd} (hnext : p.next = some c) {j : Str} {record : JobRecord}
    (hc : recordWrite c = some (j, record)) :
    ∃ old, p.trace.head?.bind readOf = some (j, old) ∧ Rewrites d p.role p.trace j old record := by
  obtain ⟨k, hk⟩ := Process.next_eq_some.mp hnext
  have hperm := (reachable_allows h hp hk).2
  rcases recordWrite_eq_some.mp hc with rfl | rfl
  · obtain ⟨hj, old, hread, ⟨hmid, w, rfl⟩ | ⟨r, w, hmid, rfl⟩⟩ := hperm
    · exact ⟨old, hread, .running w hj hmid⟩
    · exact ⟨old, hread, .terminal r w hj hmid⟩
  · obtain ⟨principal, old, hrole, hread, -, hterm, rfl⟩ := hperm
    exact ⟨old, hread, .cancel principal hrole hterm⟩

/-! ### Records belong to the submitter -/

theorem Submitted.cons {hist : History} {j u : Str} (h : Submitted hist j u)
    (o : Occurrence Cmd Reply Exc Role) : Submitted (o :: hist) j u := by
  obtain ⟨p, hp, h⟩ := h
  exact ⟨p, hp.cons o, h⟩

/-- The records, and those that were read, carry the user who submitted the job. -/
def OwnersOk (w : World) (hist : History) : Prop :=
  (∀ j x, w.record j = some x → Submitted hist j x.value.userId) ∧
  ∀ o ∈ hist, ∀ j record, readOf o.event = some (j, record) → Submitted hist j record.userId

/-- A read that returns a record returns the stored one. -/
theorem fetch_eq_some {α : Type} {now : ℕ} {x : Option (Stored α)} {v : α}
    (h : fetch now x = some v) : ∃ y, x = some y ∧ y.value = v ∧ y.Live now := by
  cases x with
  | none => cases h
  | some y =>
    simp only [fetch] at h
    split_ifs at h with hl
    exact ⟨y, rfl, Option.some.inj h, hl⟩

/-- A `GET` that was answered with a record found it in the world. -/
theorem readOf_answered {a : Act} {p : Process Cmd Reply Exc Role} {c : Cmd} {w : World}
    {r : Except Exc (Reply c)} {b : Bool} (h : (system d).Answered s a p c w r b) {j : Str}
    {record : JobRecord} (hr : readOf ⟨c, r⟩ = some (j, record)) :
    c = .getRecord j ∧ w = s.world ∧ fetch s.now (s.world.record j) = some record := by
  rcases answered_cases h with ⟨-, -, e, rfl⟩ | ⟨o, rfl, -, hx⟩
  · cases c <;> cases hr
  · cases c with
    | getRecord jobId =>
      cases r with
      | error e => cases hr
      | ok x =>
        have hval : x = fetch s.now (s.world.record jobId) := hx x rfl
        obtain ⟨rec', hrec, heq⟩ := Option.map_eq_some_iff.mp (show Option.map
          (fun record => (jobId, record)) (x : Option JobRecord) = some (j, record) from hr)
        obtain ⟨rfl, rfl⟩ := Prod.mk.inj heq
        exact ⟨rfl, rfl, hval.symm.trans hrec⟩
    | _ => cases hr

theorem Rewrites.userId {role : Role} {t : Trace} {j : Str} {old record : JobRecord}
    (h : Rewrites d role t j old record) : record.userId = old.userId := by
  cases h <;> rfl

/-- A process that rewrites a record writes the user of a record that was read. -/
theorem recordWrite_submitted (h : (system d).Reachable s) (hown : OwnersOk s.world s.hist)
    {p : Process Cmd Reply Exc Role} (hp : p ∈ s.procs) {c : Cmd} (hnext : p.next = some c)
    {j : Str} {record : JobRecord} (hc : recordWrite c = some (j, record)) :
    Submitted s.hist j record.userId := by
  obtain ⟨old, hread, hrew⟩ := read_of_recordWrite h hp hnext hc
  obtain ⟨e, he, hread⟩ := Option.bind_eq_some_iff.mp hread
  obtain ⟨o, ho, -, rfl, -⟩ :=
    (System.reachable_traced h p hp).mem (List.mem_of_mem_head? he)
  rw [hrew.userId]
  exact hown.2 o ho j old hread

/-- After an answered command every record carries its submitter. -/
theorem owners_answered {a : Act} {p : Process Cmd Reply Exc Role} {c : Cmd} {w : World}
    {r : Except Exc (Reply c)} {b : Bool} (h : (system d).Reachable s)
    (ha : (system d).Answered s a p c w r b) (hown : OwnersOk s.world s.hist) {j : Str}
    {x : Stored JobRecord} (hx : w.record j = some x) :
    Submitted (⟨s.now, p.role, ⟨c, r⟩, b⟩ :: s.hist) j x.value.userId := by
  rcases answered_cases ha with ⟨rfl, -, -⟩ | ⟨o, rfl, rfl, -⟩
  · exact (hown.1 j x hx).cons _
  cases exec_record c o with
  | enqueue payload record hw =>
    rw [hw] at hx
    obtain ⟨k, hk⟩ := ha.next
    obtain ⟨sub, -, rfl, rfl, -⟩ := (reachable_allows h ha.mem hk).2
    by_cases hj : j = sub.payload.jobId
    · subst hj
      rw [Function.update_self] at hx
      obtain rfl := Option.some.inj hx
      exact ⟨sub.payload, ⟨_, List.mem_cons_self, rfl, _, rfl⟩, rfl, rfl⟩
    · rw [Function.update_of_ne hj] at hx
      exact (hown.1 j x hx).cons _
  | write jobId record hc hw =>
    rw [hw] at hx
    by_cases hj : j = jobId
    · subst hj
      rw [Function.update_self] at hx
      obtain rfl := Option.some.inj hx
      have hnext : p.next = some c := Process.next_eq_some.mpr ha.next
      exact (recordWrite_submitted h hown ha.mem hnext (recordWrite_eq_some.mpr hc)).cons _
    · rw [Function.update_of_ne hj] at hx
      exact (hown.1 j x hx).cons _
  | other hc hw =>
    rw [hw] at hx
    exact (hown.1 j x hx).cons _

/-- **Records belong to the submitter.** Every writer of a record keeps its user. -/
theorem reachable_owners (h : (system d).Reachable s) : OwnersOk s.world s.hist := by
  have hinit : OwnersOk World.init [] :=
    ⟨fun j x hx => absurd hx (by simp [World.init]), fun o ho => absurd ho List.not_mem_nil⟩
  refine System.Reachable.history_invariant h hinit ?_
  rintro t a p c w r b ht ha ih
  refine ⟨fun j x hx => owners_answered ht ha ih hx, fun o ho j record hread => ?_⟩
  rcases List.mem_cons.mp ho with rfl | ho
  · obtain ⟨-, -, hf⟩ := readOf_answered ha hread
    obtain ⟨y, hy, rfl, -⟩ := fetch_eq_some hf
    exact (ih.1 j y hy).cons _
  · exact (ih.2 o ho j record hread).cons _

/-- Only enqueued jobs have a record. -/
theorem record_enqueued (h : (system d).Reachable s) {j : Str} {x : Stored JobRecord}
    (hx : s.world.record j = some x) : ∃ p, Enqueued s.hist p ∧ p.jobId = j := by
  obtain ⟨p, hp, hj, -⟩ := (reachable_owners h).1 j x hx
  exact ⟨p, hp, hj⟩

end CodeInterpreter
