import CodeInterpreter.Invariants.Reports
import CodeInterpreter.Queue.DeliveryCount

/-!
# Where results come from

A job is submitted once, and what the two services ever store or tell about its outcome goes back
to that submission. A result is what the executor returned for the submitted request, or `KILLED`
because the submitter cancelled the job, or a `FAILED` with one of the fixed texts. A record is the
submission with a status that one of these results, the start of a run or the submitter's `DELETE`
explains.

## Main definitions

* `Cancelled`, `Authentic`: what a result of a submitted job may be.
* `RecordOk`: a record of a submitted job.
* `Genuine`: everything that is stored, answered or announced is authentic.

## Main results

* `reachable_records`: every record, stored or read, is in order.
* `reachable_genuine`: every stored result, every answer of `POST /v1/execute` and every announced
  outcome is authentic.
-/

namespace CodeInterpreter

open Async

variable {d : Deployment} {s : Sys} {p : JobPayload} {j : Str}

/-! ### The request of a payload -/

/-- The request that the worker reads back: absent fields are empty, and a timeout of zero is
replaced by the default. -/
def ApiRequest.decoded (q : ApiRequest) : ExecutionRequest where
  language := q.language
  code := q.code
  stdin := q.stdin.getD []
  timeoutSeconds := if q.timeoutSeconds = 0 then 10 else q.timeoutSeconds
  envVars := q.envVars.getD []
  files := q.files.getD []

theorem readFiles_toValue (py : Python) (fs : List InputFile) :
    ExecutionRequest.readFiles py (.list (fs.map InputFile.toValue)) = .ok fs := by
  rw [ExecutionRequest.readFiles]
  induction fs with
  | nil => rfl
  | cons f fs ih =>
    rw [List.map_cons, List.mapM_cons, ih]
    rfl

theorem readFiles_field (py : Python) (files : Option (List InputFile)) :
    ExecutionRequest.readFiles py (((files.map fun fs =>
      Value.list (fs.map InputFile.toValue)).getD .none).orElse (.list [])) =
        .ok (files.getD []) := by
  cases files with
  | none => rfl
  | some fs =>
    have horElse : (Value.list (fs.map InputFile.toValue)).orElse (.list []) =
        .list (fs.map InputFile.toValue) := by
      cases fs <;> rfl
    rw [Option.map_some, Option.getD_some, horElse]
    exact readFiles_toValue py fs

theorem readEnv_field (py : Python) (env : Option (List (Str × Str))) :
    ExecutionRequest.readEnv py (((env.map fun kvs =>
      Value.dict (kvs.map fun kv => (kv.1, .str kv.2))).getD .none).orElse (.dict [])) =
        .ok (env.getD []) := by
  cases env with
  | none => rfl
  | some kvs =>
    have horElse : (Value.dict (kvs.map fun kv => (kv.1, .str kv.2))).orElse (.dict []) =
        .dict (kvs.map fun kv => (kv.1, .str kv.2)) := by
      cases kvs <;> rfl
    rw [Option.map_some, Option.getD_some, horElse, ExecutionRequest.readEnv, List.map_map]
    exact congrArg Except.ok (List.map_id' kvs)

theorem str_stdin_field (py : Python) (stdin : Option Str) :
    py.str (((stdin.map Value.str).getD .none).orElse (.str [])) = stdin.getD [] := by
  cases stdin with
  | none => rfl
  | some s => cases s <;> rfl

theorem int_timeout_field (py : Python) (n : ℕ) :
    py.int ((Value.int n).orElse (.int 10)) = .ok (if n = 0 then 10 else (n : ℤ)) := by
  cases n with
  | zero => rfl
  | succ n =>
    have htruthy : (Value.int (n + 1 : ℕ)).truthy = true := by
      simp only [Value.truthy, bne_iff_ne]
      omega
    rw [Value.orElse, if_pos htruthy, if_neg (Nat.succ_ne_zero n)]
    rfl

/-- The fields of the object of a request. -/
theorem lookup_request (q : ApiRequest) : ∃ kvs, q.toValue = .dict kvs ∧
    lookup (str "language") kvs = some (.str q.language) ∧
    lookup (str "code") kvs = some (.str q.code) ∧
    lookup (str "stdin") kvs = q.stdin.map Value.str ∧
    lookup (str "timeout_seconds") kvs = some (.int q.timeoutSeconds) ∧
    lookup (str "env_vars") kvs =
      q.envVars.map (fun env => Value.dict (env.map fun kv => (kv.1, .str kv.2))) ∧
    lookup (str "files") kvs =
      q.files.map (fun fs => Value.list (fs.map InputFile.toValue)) := by
  refine ⟨_, rfl, ?_⟩
  cases q.stdin <;> cases q.envVars <;> cases q.files <;> exact ⟨rfl, rfl, rfl, rfl, rfl, rfl⟩

/-- **The worker decodes the request of every payload that the API writes.** -/
theorem requestOf_toValue (py : Python) (p : JobPayload) :
    Worker.requestOf py p.toValue = .ok p.request.decoded := by
  obtain ⟨kvs, hdict, hlanguage, hcode, hstdin, htimeout, henv, hfiles⟩ := lookup_request p.request
  have hget : p.toValue.getItem (str "request") = .ok (.dict kvs) := by
    rw [← hdict]
    rfl
  have hdecode : ExecutionRequest.fromDict py (.dict kvs) = .ok p.request.decoded := by
    simp only [ExecutionRequest.fromDict, Value.get, Value.getItem, hlanguage, hcode, hstdin,
      htimeout, henv, hfiles, Option.elim_some, Option.getD_some, Bind.bind, Except.bind,
      readFiles_field, readEnv_field, str_stdin_field, int_timeout_field]
    rfl
  rw [Worker.requestOf, hget]
  exact hdecode

/-! ### Authentic results -/

/-- The submitter's `DELETE` of the job took effect. -/
def Cancelled (hist : History) (p : JobPayload) : Prop :=
  ∃ o ∈ hist, o.applied = true ∧ ∃ principal record, o.role = .deleteJob principal p.jobId ∧
    principal.userId = p.userId ∧ o.event.cmd = .cancelMulti p.jobId record

/-- What the outcome of a submitted job may be: the executor returned it when it was run on the
submitted request, the submitter cancelled the job, an entry of the job was delivered too often, or
an exception other than an unavailable Docker ended a run. -/
inductive Authentic (d : Deployment) (hist : History) (p : JobPayload) : ExecutionResult → Prop
  | ran {o : Occurrence Cmd Reply Exc Role} {x : Execution} {r : ExecutionResult} (ho : o ∈ hist)
      (hx : o.event = ⟨.execute p.request.decoded p.jobId, .ok x⟩) (hr : x.outcome = .ok r) :
      Authentic d hist p r
  | cancelled (hc : Cancelled hist p) : Authentic d hist p (Worker.cancelledResult p.jobId)
  | exhausted {m : QueueMessage} (hm : Handed hist m) (hpay : m.payload = p.toValue)
      (hn : d.maxRetries < m.deliveryCount) :
      Authentic d hist p (Worker.failedResult p.jobId (.sandbox (str "max_retries")))
  | raised {e : Exc} (he : Worker.isDockerUnavailable e = false) :
      Authentic d hist p (Worker.failedResult p.jobId e)

theorem Cancelled.mono {hist hist' : History} (h : Cancelled hist p) (hh : hist.Sublist hist') :
    Cancelled hist' p := by
  obtain ⟨o, ho, h⟩ := h
  exact ⟨o, hh.subset ho, h⟩

theorem Authentic.mono {hist hist' : History} {r : ExecutionResult} (h : Authentic d hist p r)
    (hh : hist.Sublist hist') : Authentic d hist' p r := by
  cases h with
  | ran ho hx hr => exact .ran (hh.subset ho) hx hr
  | cancelled hc => exact .cancelled (hc.mono hh)
  | exhausted hm hpay hn =>
    obtain ⟨o, ho, hcmd⟩ := hm
    exact .exhausted ⟨o, hh.subset ho, hcmd⟩ hpay hn
  | raised he => exact .raised he

/-! ### Cancellation -/

/-- A `DELETE` that cancels a job is the submitter's. -/
theorem cancelled_of_mem (h : (system d).Reachable s) (hp : Enqueued s.hist p)
    {o : Occurrence Cmd Reply Exc Role} (ho : o ∈ s.hist) (happ : o.applied = true)
    {record : JobRecord} (hc : o.event.cmd = .cancelMulti p.jobId record) :
    Cancelled s.hist p := by
  obtain ⟨t, hperm, hrec⟩ := permitted_of_mem h ho
  rw [hc] at hperm
  obtain ⟨principal, old, hrole, hread, howner, -⟩ := hperm
  obtain ⟨e, he, hread⟩ := Option.bind_eq_some_iff.mp hread
  obtain ⟨o', ho', -, rfl, -⟩ := hrec.mem (List.mem_of_mem_head? he)
  obtain ⟨p', hp', hj, hu⟩ := (reachable_owners h).2 o' ho' _ _ hread
  obtain rfl := enqueued_eq h hp' hp hj
  exact ⟨o, ho, happ, principal, record, hrole, (hu.trans howner).symm, hc⟩

/-- The flags, and those that were seen, were set by a `DELETE` that took effect. -/
def FlagsOk (w : World) (hist : History) : Prop :=
  (∀ j x, w.cancel j = some x →
    ∃ o ∈ hist, o.applied = true ∧ ∃ record, o.event.cmd = .cancelMulti j record) ∧
  ∀ o ∈ hist, ∀ j, o.event = ⟨.existsCancel j, .ok true⟩ →
    ∃ o' ∈ hist, o'.applied = true ∧ ∃ record, o'.event.cmd = .cancelMulti j record

theorem reachable_flags (h : (system d).Reachable s) : FlagsOk s.world s.hist := by
  have hinit : FlagsOk World.init [] :=
    ⟨fun j x hx => (by cases hx), fun o ho => absurd ho List.not_mem_nil⟩
  have hcons : ∀ {hist : History} {j : Str} (o : Occurrence Cmd Reply Exc Role),
      (∃ o' ∈ hist, o'.applied = true ∧ ∃ record, o'.event.cmd = .cancelMulti j record) →
      ∃ o' ∈ o :: hist, o'.applied = true ∧ ∃ record, o'.event.cmd = .cancelMulti j record :=
    fun o ⟨o', ho', h⟩ => ⟨o', List.mem_cons_of_mem o ho', h⟩
  refine System.Reachable.history_invariant h hinit ?_
  rintro t a q c w r b ht ha ⟨ihw, ihh⟩
  refine ⟨fun j x hx => ?_, fun o ho j hev => ?_⟩
  · rcases answered_cases ha with ⟨rfl, -, -⟩ | ⟨o, rfl, rfl, -⟩
    · exact hcons _ (ihw j x hx)
    cases @exec_cancel t.now t.world c o with
    | cancel j' record hw =>
      by_cases hj : j = j'
      · subst hj
        exact ⟨_, List.mem_cons_self, rfl, record, rfl⟩
      · rw [hw, Function.update_of_ne hj] at hx
        exact hcons _ (ihw j x hx)
    | other hc hw =>
      rw [hw] at hx
      exact hcons _ (ihw j x hx)
  · rcases List.mem_cons.mp ho with rfl | ho
    · cases hev
      rcases answered_cases ha with ⟨-, -, e, he⟩ | ⟨o, -, -, hx⟩
      · cases he
      · have hsome : (fetch t.now (t.world.cancel j)).isSome = true := (hx true rfl).symm
        obtain ⟨x, hx⟩ := Option.isSome_iff_exists.mp hsome
        obtain ⟨y, hy, -⟩ := fetch_eq_some hx
        exact hcons _ (ihw j y hy)
    · exact hcons _ (ihh o ho j hev)

/-! ### Results that are written -/

/-- A run of `_process` works on the payload of a submitted job. -/
theorem submitted_of_runsOn (h : (system d).Reachable s) {role : Role}
    (ho : (system d).Originates s role) {P : QueueMessage → Prop} (hrun : RunsOn d role j P) :
    ∃ m p, P m ∧ Handed s.hist m ∧ m.payload = p.toValue ∧ Enqueued s.hist p ∧ p.jobId = j := by
  obtain ⟨wid, m, hrole, hid, hP⟩ := hrun
  obtain ⟨o, hmem, x, hx, -, hpay, -⟩ := message_delivered h ho hrole
  obtain ⟨p, hp, hval⟩ := ((reachable_deliveries h).2 o hmem x hx).fromApi
  have hm : m.payload = p.toValue := hpay.trans hval
  rw [hm, jobIdOf_toValue] at hid
  exact ⟨m, p, hP, delivery_dispatched ho hrole, hm, hp, Except.ok.inj hid⟩

/-- What a result rests on in the trace of the process that writes it makes it authentic. -/
theorem authentic_of_grounds (h : (system d).Reachable s) {t : Trace} {role : Role}
    (hrec : System.Traced s.hist role t) {m : QueueMessage} (hm : Handed s.hist m)
    (hpay : m.payload = p.toValue) (hp : Enqueued s.hist p) {r : ExecutionResult}
    (hg : Grounds d m t p.jobId r) : Authentic d s.hist p r := by
  cases hg with
  | ran hreq hx hr =>
    rw [hpay, requestOf_toValue] at hreq
    obtain rfl := Except.ok.inj hreq
    obtain ⟨o, ho, -, hev, -⟩ := hrec.mem hx
    exact .ran ho hev hr
  | cancelled hc =>
    obtain ⟨o, ho, -, hev, -⟩ := hrec.mem hc
    obtain ⟨o', ho', happ, record, hcmd⟩ := (reachable_flags h).2 o ho _ hev
    exact .cancelled (cancelled_of_mem h hp ho' happ hcmd)
  | exhausted hn => exact .exhausted hm hpay hn
  | malformed he =>
    rw [hpay, requestOf_toValue] at he
    cases he
  | raised hc he => exact .raised he

/-- **Every result that is written is authentic.** -/
theorem authentic_of_setResult (h : (system d).Reachable s) {o : Occurrence Cmd Reply Exc Role}
    (ho : o ∈ s.hist) {r : ExecutionResult} (hc : o.event.cmd = .setResult j r) :
    ∃ p, Enqueued s.hist p ∧ p.jobId = j ∧ Authentic d s.hist p r := by
  obtain ⟨older, t, hsuf, hrep, hrec⟩ := reported_of_mem h ho
  rw [hc] at hrep
  obtain ⟨m, p, hg, hm, hpay, hp, rfl⟩ :=
    submitted_of_runsOn h ((System.reachable_originates h).2 o ho) hrep
  have hsub : older.Sublist s.hist := (List.sublist_cons_self o older).trans hsuf.sublist
  exact ⟨p, hp, rfl, authentic_of_grounds h (hrec.mono hsub) hm hpay hp hg⟩

/-! ### Records -/

/-- A record of a submitted job: the submission, with an authentic result once there is one, and a
status that the result, the start of a run or the submitter's `DELETE` explains. -/
structure RecordOk (d : Deployment) (hist : History) (p : JobPayload) (record : JobRecord) :
    Prop where
  jobId : record.jobId = p.jobId
  userId : record.userId = p.userId
  language : record.language = p.language
  request : record.request = p.request
  retries : record.retries = 0
  result : ∀ r, record.result = some r → Authentic d hist p r
  status : record.status = .running ∨ (record.status = .killed ∧ Cancelled hist p) ∨
    (record.result = none ∧ record.status = .pending) ∨
    ∃ r, record.result = some r ∧ record.status = r.status

/-- The record is one of a job that was submitted. -/
def Recorded (d : Deployment) (hist : History) (j : Str) (record : JobRecord) : Prop :=
  ∃ p, Enqueued hist p ∧ p.jobId = j ∧ RecordOk d hist p record

theorem RecordOk.mono {hist hist' : History} {record : JobRecord} (h : RecordOk d hist p record)
    (hh : hist.Sublist hist') : RecordOk d hist' p record :=
  { h with
    result := fun r hr => (h.result r hr).mono hh
    status := h.status.imp_right fun h' => h'.imp_left fun hc => ⟨hc.1, hc.2.mono hh⟩ }

theorem Recorded.cons {hist : History} {record : JobRecord} (h : Recorded d hist j record)
    (o : Occurrence Cmd Reply Exc Role) : Recorded d (o :: hist) j record := by
  obtain ⟨p, hp, hj, hok⟩ := h
  exact ⟨p, hp.cons o, hj, hok.mono (List.sublist_cons_self o hist)⟩

/-- The records, and those that were read, are in order. -/
def RecordsOk (d : Deployment) (w : World) (hist : History) : Prop :=
  (∀ j x, w.record j = some x → Recorded d hist j x.value) ∧
  ∀ o ∈ hist, ∀ j record, readOf o.event = some (j, record) → Recorded d hist j record

/-- What a process has just read is in order. -/
theorem recorded_of_read (h : (system d).Reachable s) (hok : RecordsOk d s.world s.hist)
    {q : Process Cmd Reply Exc Role} (hq : q ∈ s.procs) {old : JobRecord}
    (hread : q.trace.head?.bind readOf = some (j, old)) : Recorded d s.hist j old := by
  obtain ⟨e, he, hread⟩ := Option.bind_eq_some_iff.mp hread
  obtain ⟨o, ho, -, rfl, -⟩ := (System.reachable_traced h q hq).mem (List.mem_of_mem_head? he)
  exact hok.2 o ho j old hread

/-- A store in progress has written its result. -/
theorem stored_of_midStore {t : Trace} {r : ExecutionResult} (h : midStore t = some (j, r)) :
    ∃ e ∈ t, storedOf e = some (j, r) := by
  cases t with
  | nil => cases h
  | cons e t =>
    rcases Option.or_eq_some_iff.mp h with hs | ⟨-, hr⟩
    · exact ⟨e, List.mem_cons_self, hs⟩
    · obtain ⟨x, -, hy⟩ := Option.bind_eq_some_iff.mp hr
      obtain ⟨hstored, -⟩ := Option.filter_eq_some_iff.mp hy
      obtain ⟨e', he', hs⟩ := Option.bind_eq_some_iff.mp hstored
      exact ⟨e', List.mem_cons_of_mem e (List.mem_of_mem_head? he'), hs⟩

/-- The three programs that rewrite a record keep it in order. -/
theorem recorded_of_write (h : (system d).Reachable s) (hok : RecordsOk d s.world s.hist)
    {q : Process Cmd Reply Exc Role} (hq : q ∈ s.procs) {c : Cmd} {r : Except Exc (Reply c)}
    {k : Except Exc (Reply c) → Prog Unit} (hnext : q.prog = .call c k) {record : JobRecord}
    (hc : c = .setRecord j record ∨ c = .cancelMulti j record) :
    Recorded d (⟨s.now, q.role, ⟨c, r⟩, true⟩ :: s.hist) j record := by
  have hperm := (reachable_allows h hq hnext).2
  rcases hc with rfl | rfl
  · obtain ⟨-, old, hread, hrew⟩ := hperm
    obtain ⟨p, hp, rfl, hold⟩ := recorded_of_read h hok hq hread
    rcases hrew with ⟨-, w, rfl⟩ | ⟨res, w, hmid, rfl⟩
    · have hnew : RecordOk d s.hist p (Worker.runningFields w old) :=
        ⟨hold.jobId, hold.userId, hold.language, hold.request, hold.retries, hold.result, .inl rfl⟩
      exact Recorded.cons ⟨p, hp, rfl, hnew⟩ _
    · obtain ⟨e, he, hev⟩ := stored_of_midStore hmid
      obtain ⟨o, ho, -, rfl, -⟩ := (System.reachable_traced h q hq).mem he
      obtain ⟨p', hp', hj, hauth⟩ := authentic_of_setResult h ho (j := p.jobId) (r := res)
        (by rw [storedOf_eq_some hev])
      obtain rfl := enqueued_eq h hp' hp hj
      have hnew : RecordOk d s.hist p' (Worker.terminalFields res w old) :=
        ⟨hold.jobId, hold.userId, hold.language, hold.request, hold.retries,
          fun r hr => Option.some.inj hr ▸ hauth, .inr (.inr (.inr ⟨res, rfl, rfl⟩))⟩
      exact Recorded.cons ⟨p', hp, rfl, hnew⟩ _
  · obtain ⟨principal, old, hrole, hread, howner, -, rfl⟩ := hperm
    obtain ⟨p, hp, rfl, hold⟩ := recorded_of_read h hok hq hread
    have hcancelled : Cancelled
        (⟨s.now, q.role, ⟨.cancelMulti p.jobId (Api.killedRecord old), r⟩, true⟩ :: s.hist) p :=
      ⟨_, List.mem_cons_self, rfl, principal, _, hrole, howner.symm.trans hold.userId, rfl⟩
    have hsub := List.sublist_cons_self
      (⟨s.now, q.role, ⟨.cancelMulti p.jobId (Api.killedRecord old), r⟩, true⟩ :
        Occurrence Cmd Reply Exc Role) s.hist
    exact ⟨p, hp.cons _, rfl, hold.jobId, hold.userId, hold.language, hold.request, hold.retries,
      fun r hr => (hold.result r hr).mono hsub, .inr (.inl ⟨rfl, hcancelled⟩)⟩

/-- **Every record is in order**, in every reachable state, and so was every record that was
read. -/
theorem reachable_records (h : (system d).Reachable s) : RecordsOk d s.world s.hist := by
  have hinit : RecordsOk d World.init [] :=
    ⟨fun j x hx => (by cases hx), fun o ho => absurd ho List.not_mem_nil⟩
  refine System.Reachable.history_invariant h hinit ?_
  intro t a q c w r b ht ha ih
  refine ⟨fun j x hx => ?_, fun o ho j record hread => ?_⟩
  · rcases answered_cases ha with ⟨rfl, -, -⟩ | ⟨o, rfl, rfl, -⟩
    · exact (ih.1 j x hx).cons _
    obtain ⟨k, hk⟩ := ha.next
    cases exec_record c o with
    | enqueue payload record hw =>
      rw [hw] at hx
      obtain ⟨sub, -, rfl, rfl, -⟩ := (reachable_allows ht ha.mem hk).2
      by_cases hj : j = sub.payload.jobId
      · subst hj
        rw [Function.update_self] at hx
        obtain rfl := Option.some.inj hx
        have hnew : RecordOk d t.hist sub.payload sub.record :=
          ⟨rfl, rfl, rfl, rfl, rfl, fun r hr => (by cases hr), .inr (.inr (.inl ⟨rfl, rfl⟩))⟩
        exact ⟨sub.payload, ⟨_, List.mem_cons_self, rfl, _, rfl⟩, rfl,
          hnew.mono (List.sublist_cons_self _ _)⟩
      · rw [Function.update_of_ne hj] at hx
        exact (ih.1 j x hx).cons _
    | write jobId record hc hw =>
      rw [hw] at hx
      by_cases hj : j = jobId
      · subst hj
        rw [Function.update_self] at hx
        obtain rfl := Option.some.inj hx
        exact recorded_of_write ht ih ha.mem hk hc
      · rw [Function.update_of_ne hj] at hx
        exact (ih.1 j x hx).cons _
    | other hc hw =>
      rw [hw] at hx
      exact (ih.1 j x hx).cons _
  · rcases List.mem_cons.mp ho with rfl | ho
    · obtain ⟨-, -, hf⟩ := readOf_answered ha hread
      obtain ⟨y, hy, rfl, -⟩ := fetch_eq_some hf
      exact (ih.1 j y hy).cons _
    · exact (ih.2 o ho j record hread).cons _

/-- Every record of a job, the stored one and those that `GET /v1/jobs/:id` answers with, is in
order. -/
structure RecordsKept (d : Deployment) (s : Sys) : Prop where
  stored : ∀ x p, s.world.record p.jobId = some x → Enqueued s.hist p → RecordOk d s.hist p x.value
  answered : ∀ o ∈ s.hist, ∀ record, o.event.cmd = .respond (.jobRecord record) →
    ∃ principal p, o.role = .getJob principal p.jobId ∧ p.userId = principal.userId ∧
      Enqueued s.hist p ∧ RecordOk d s.hist p record

/-- **A record is its submission with an explained status**, in every reachable state. -/
theorem reachable_recordsKept (h : (system d).Reachable s) : RecordsKept d s where
  stored := by
    intro x p hx hp
    obtain ⟨p', hp', hj, hok⟩ := (reachable_records h).1 p.jobId x hx
    obtain rfl := enqueued_eq h hp' hp hj
    exact hok
  answered := by
    intro o ho record hcmd
    obtain ⟨t, hperm, hrec⟩ := permitted_of_mem h ho
    rw [hcmd] at hperm
    obtain ⟨principal, j, hrole, ⟨e, he, hread⟩, howner⟩ := hperm
    obtain ⟨o', ho', -, rfl, -⟩ := hrec.mem he
    obtain ⟨p, hp, rfl, hok⟩ := (reachable_records h).2 o' ho' j record hread
    exact ⟨principal, p, hrole, hok.userId.symm.trans howner, hp, hok⟩

/-- Anna submits a job synchronously, a worker completes it, and the next poll sees the result. -/
def syncSample : List Act :=
  [.arrive (.postExecute (sampleSubmission sampleId) 1), ok 0, ok 0] ++ completeSample ++
  [ok 0, ok 0, ok 0]

/-- Anna's job, which she reads back at the end. -/
theorem reachable_recordsKept_sample :
    ∃ s : Sys, (system .default).Reachable s ∧ (s.world.record sampleId).isSome = true ∧
      RecordsKept .default s := by
  have hreach := reachable_sampleRun (syncSample ++
    [.arrive (.getJob anna sampleId), ok 3, ok 3]) (by decide +kernel)
  exact ⟨_, hreach, by decide +kernel, reachable_recordsKept hreach⟩

/-! ### Results -/

/-- A result under the key of a job was written by an answered command. -/
theorem setResult_of_stored (h : (system d).Reachable s) {x : Stored ExecutionResult}
    (hx : s.world.result j = some x) :
    ∃ o ∈ s.hist, o.event.cmd = .setResult j x.value := by
  have hinv : ∀ j x, s.world.result j = some x →
      ∃ o ∈ s.hist, o.event.cmd = .setResult j x.value := by
    refine System.Reachable.history_invariant (J := fun w hist => ∀ j x, w.result j = some x →
      ∃ o ∈ hist, o.event.cmd = .setResult j x.value) h (fun j x hx => by cases hx) ?_
    intro t a q c w r b _ ha ih j x hx
    have hold : t.world.result j = some x →
        ∃ o ∈ ⟨t.now, q.role, ⟨c, r⟩, b⟩ :: t.hist, o.event.cmd = .setResult j x.value :=
      fun hx => (ih j x hx).imp fun o ho => ⟨List.mem_cons_of_mem _ ho.1, ho.2⟩
    rcases answered_cases ha with ⟨rfl, -, -⟩ | ⟨o, rfl, -, -⟩
    · exact hold hx
    cases @exec_result t.now t.world c o with
    | store j' res hw =>
      by_cases hj : j = j'
      · subst hj
        rw [hw, Function.update_self] at hx
        obtain rfl := Option.some.inj hx
        exact ⟨_, List.mem_cons_self, rfl⟩
      · rw [hw, Function.update_of_ne hj] at hx
        exact hold hx
    | other hc hw =>
      rw [hw] at hx
      exact hold hx
  exact hinv j x hx

/-- A terminal record in order shows an authentic outcome, also when it has no result. -/
theorem RecordOk.authentic {hist : History} {record : JobRecord} (h : RecordOk d hist p record)
    (hterm : record.status.Terminal) :
    Authentic d hist p (record.result.getD (Api.fallbackResult record)) := by
  cases hres : record.result with
  | some r => exact h.result r hres
  | none =>
    rcases h.status with hst | ⟨hst, hc⟩ | ⟨-, hst⟩ | ⟨r, hr, -⟩
    · rw [hst] at hterm
      exact absurd hterm (by decide)
    · have hfallback : Api.fallbackResult record = Worker.cancelledResult p.jobId := by
        simp [Api.fallbackResult, Worker.cancelledResult, hst, h.jobId]
      rw [Option.getD_none, hfallback]
      exact .cancelled hc
    · rw [hst] at hterm
      exact absurd hterm not_terminal_pending
    · rw [hres] at hr
      cases hr

/-- The outcome was written under the result key before. -/
def WrittenBefore (older : History) (j : Str) (r : ExecutionResult) : Prop :=
  ∃ o ∈ older, o.applied = true ∧ o.event.cmd = .setResult j r

/-- What is stored, answered or announced about the outcome of a job is authentic. -/
structure Genuine (d : Deployment) (s : Sys) : Prop where
  stored : ∀ j x, s.world.result j = some x →
    ∃ p, Enqueued s.hist p ∧ p.jobId = j ∧ Authentic d s.hist p x.value
  answered : ∀ o ∈ s.hist, ∀ r, o.event.cmd = .respond (.result r) →
    ∃ sub, o.role = .submission sub ∧ Enqueued s.hist sub.payload ∧
      Authentic d s.hist sub.payload r
  announced : ∀ o older, o :: older <:+ s.hist → ∀ j exitCode status wallTimeMs timedOut oomKilled,
    o.event.cmd = .publish j (.done exitCode status wallTimeMs timedOut oomKilled) →
    ∃ p r, Enqueued s.hist p ∧ p.jobId = j ∧ Authentic d s.hist p r ∧ WrittenBefore older j r ∧
      doneOf r = .done exitCode status wallTimeMs timedOut oomKilled

/-- The payload of a job is that of the submission that its process handles. -/
theorem payload_of_submission (h : (system d).Reachable s) {sub : Api.Submission} {role : Role}
    (ho : (system d).Originates s role) (hsub : submissionOf d role = some sub)
    (hp : Enqueued s.hist p) (hj : p.jobId = sub.jobId) : p = sub.payload := by
  obtain ⟨o, ho', -, record, hcmd⟩ := hp
  obtain ⟨sub', hsub', rfl, -⟩ := enqueue_submission h ho' hcmd
  rw [(submission_eq h ((System.reachable_originates h).2 o ho') ho hsub' hsub hj).2]

/-- **Outcomes are genuine** in every reachable state. -/
theorem reachable_genuine (h : (system d).Reachable s) : Genuine d s where
  stored := by
    intro j x hx
    obtain ⟨o, ho, hcmd⟩ := setResult_of_stored h hx
    exact authentic_of_setResult h ho hcmd
  answered := by
    intro o ho r hcmd
    obtain ⟨older, t, hsuf, hrep, hrec⟩ := reported_of_mem h ho
    rw [hcmd] at hrep
    obtain ⟨sub, record, hrole, hread, hterm, rfl⟩ := hrep
    obtain ⟨o', ho', -, hev, -⟩ := hrec.mem hread
    have hmem : o' ∈ s.hist := hsuf.subset (List.mem_cons_of_mem o ho')
    obtain ⟨p, hp, hj, hok⟩ := (reachable_records h).2 o' hmem sub.jobId record (by rw [hev]; rfl)
    obtain rfl := payload_of_submission h ((System.reachable_originates h).2 o ho)
      (by rw [hrole]; rfl) hp hj
    exact ⟨sub, hrole, hp, hok.authentic hterm⟩
  announced := by
    intro o older hsuf j exitCode status wallTimeMs timedOut oomKilled hcmd
    obtain ⟨t, hrep, hrec⟩ := reported_of_suffix h hsuf
    rw [hcmd] at hrep
    obtain ⟨w, m, hrole, hid, r, hset, hdone⟩ := hrep
    obtain ⟨o', ho', -, hev, happ⟩ := hrec.mem hset
    have hmem : o' ∈ s.hist := hsuf.subset (List.mem_cons_of_mem o ho')
    have hcmd' : o'.event.cmd = .setResult j r := by rw [hev]
    obtain ⟨p, hp, hj, hauth⟩ := authentic_of_setResult h hmem hcmd'
    exact ⟨p, r, hp, hj, hauth, ⟨o', ho', happ ⟨(), rfl⟩, hcmd'⟩, hdone⟩

/-- The result that a command answers with. -/
def answeredResult : Cmd → Option ExecutionResult
  | .respond (.result r) => some r
  | _ => none

/-- The sample job is answered with its result. -/
theorem reachable_genuine_sample :
    ∃ s : Sys, (system .default).Reachable s ∧
      (∃ o ∈ s.hist, answeredResult o.event.cmd = some sampleResult) ∧ Genuine .default s := by
  have hreach := reachable_sampleRun syncSample (by decide +kernel)
  exact ⟨_, hreach, by decide +kernel, reachable_genuine hreach⟩

end CodeInterpreter
