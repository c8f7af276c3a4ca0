import CodeInterpreter.Invariants.Deliveries

/-!
# What is reported, and on which grounds

A second discipline, about results. A run of `_process` writes a result only on one of the grounds
that its source has for it, announces only results that it has written, and acknowledges or
dead-letters its entry only when a result was written and then announced, or the payload has no job
id. `POST /v1/execute` answers with the result of a terminal record that it has read.

## Main definitions

* `Announced`: a result was written and after that announced.
* `Grounds`: what a result that is written may rest on.
* `Reports`, `reportDiscipline`.

## Main results

* `Worker.process_reports`, `Api.postExecute_reports`: the two programs with restricted commands.
* `reachable_reports`: every process of a reachable state keeps the discipline.
* `reported_of_mem`: every command of the history satisfied it.
-/

namespace CodeInterpreter

open Async Async.Program

variable {d : Deployment} {s : Sys} {t : Trace} {m : QueueMessage} {jobId : Str}

/-- The message that announces a result. -/
def doneOf (r : ExecutionResult) : StreamMessage :=
  .done r.exitCode r.status r.wallTimeMs r.timedOut r.oomKilled

/-- The result was written for the job and after that announced. -/
def Announced (t : Trace) (jobId : Str) (r : ExecutionResult) : Prop :=
  ∃ older, ⟨.publish jobId (doneOf r), .ok ()⟩ :: older <:+ t ∧ ⟨.setResult jobId r, .ok ()⟩ ∈ older

/-- What the result that a run of `_process` on the message writes may rest on: the executor
returned it, the job was seen cancelled, the entry was delivered too often, its payload is no
request, or an exception ended the run of a job that was not cancelled. -/
inductive Grounds (d : Deployment) (m : QueueMessage) (t : Trace) (jobId : Str) :
    ExecutionResult → Prop
  | ran {request : ExecutionRequest} {x : Execution} {r : ExecutionResult}
      (hreq : Worker.requestOf d.py m.payload = .ok request)
      (hx : ⟨.execute request jobId, .ok x⟩ ∈ t) (hr : x.outcome = .ok r) : Grounds d m t jobId r
  | cancelled (hc : ⟨.existsCancel jobId, .ok true⟩ ∈ t) :
      Grounds d m t jobId (Worker.cancelledResult jobId)
  | exhausted (hn : d.maxRetries < m.deliveryCount) :
      Grounds d m t jobId (Worker.failedResult jobId (.sandbox (str "max_retries")))
  | malformed {e : Exc} (he : Worker.requestOf d.py m.payload = .error e) :
      Grounds d m t jobId (Worker.failedResult jobId (.sandbox (str "malformed_payload")))
  | raised {e : Exc} (hc : ⟨.existsCancel jobId, .ok false⟩ ∈ t)
      (he : Worker.isDockerUnavailable e = false) :
      Grounds d m t jobId (Worker.failedResult jobId e)

/-- A result was written and announced, if the payload has a job id. -/
def Concluded (t : Trace) (jobId : Str) : Prop := jobId = [] ∨ ∃ r, Announced t jobId r

/-- The two reasons for which an entry is moved to the dead-letter stream. -/
inductive Buries (d : Deployment) (m : QueueMessage) (t : Trace) (jobId : Str) : Str → Prop
  | exhausted (hn : d.maxRetries < m.deliveryCount)
      (ha : Announced t jobId (Worker.failedResult jobId (.sandbox (str "max_retries")))) :
      Buries d m t jobId (str "max_retries_exceeded")
  | malformed {e : Exc} (he : Worker.requestOf d.py m.payload = .error e)
      (ha : Concluded t jobId) : Buries d m t jobId (str "malformed_payload")

/-- What is published on the channel of a job: that it runs, once it was seen not to be cancelled,
and the results that were written. -/
def Tells (t : Trace) (jobId : Str) : StreamMessage → Prop
  | .status status => status = .running ∧ ⟨.existsCancel jobId, .ok false⟩ ∈ t
  | .done exitCode status wallTimeMs timedOut oomKilled =>
    ∃ r, ⟨.setResult jobId r, .ok ()⟩ ∈ t ∧
      doneOf r = .done exitCode status wallTimeMs timedOut oomKilled
  | _ => False

/-- An entry that was delivered too often was moved to the dead-letter stream. -/
def Buried (d : Deployment) (m : QueueMessage) (t : Trace) : Prop :=
  d.maxRetries < m.deliveryCount →
    ⟨.xaddDead ⟨m.payload, str "max_retries_exceeded", m.deliveryCount⟩, .ok ()⟩ ∈ t

/-- The process is a run of `_process` on a message of the job with the given property. -/
def RunsOn (d : Deployment) (role : Role) (jobId : Str) (P : QueueMessage → Prop) : Prop :=
  ∃ w m, role = .delivery w m ∧ Worker.jobIdOf d.py m.payload = .ok jobId ∧ P m

/-- What a command that reports requires of the role and of the trace of the process. -/
def Reports (d : Deployment) (role : Role) (t : Trace) : Cmd → Prop
  | .setResult jobId r => RunsOn d role jobId fun m => Grounds d m t jobId r
  | .publish jobId message => RunsOn d role jobId fun _ => Tells t jobId message
  | .xack id | .xdel id =>
    ∃ jobId, RunsOn d role jobId fun m => m.msgId = id ∧ Concluded t jobId ∧ Buried d m t
  | .xaddDead letter =>
    ∃ jobId, RunsOn d role jobId fun m => letter.payload = m.payload ∧
      letter.deliveryCount = m.deliveryCount ∧ Buries d m t jobId letter.reason
  | .respond (.result r) =>
    ∃ sub record, role = .submission sub ∧ ⟨.getRecord sub.jobId, .ok (some record)⟩ ∈ t ∧
      record.status.Terminal ∧ r = record.result.getD (Api.fallbackResult record)
  | _ => True

/-- The commands that every process may issue at any time. -/
def Cmd.unreported : Cmd → Bool
  | .setResult _ _ | .publish _ _ | .xack _ | .xdel _ | .xaddDead _ | .respond (.result _) => false
  | _ => true

theorem reports_of_unreported {c : Cmd} (hc : c.unreported = true) (role : Role) (t : Trace) :
    Reports d role t c := by
  cases c with
  | respond r => cases r <;> first | exact trivial | cases hc
  | _ => first | exact trivial | cases hc

/-- The discipline of the reports. -/
def reportDiscipline (d : Deployment) : Discipline Cmd Reply Exc Role where
  allows := Reports d
  ends _ _ := True

/-- The contract that it gives a process of the given role. -/
abbrev reportsContract (d : Deployment) (role : Role) : Contract Cmd Reply Exc :=
  (system d).contract (reportDiscipline d) role

theorem Announced.mono {t' : Trace} {r : ExecutionResult} (h : Announced t jobId r)
    (ht : t <:+ t') : Announced t' jobId r := by
  obtain ⟨older, hp, hs⟩ := h
  exact ⟨older, hp.trans ht, hs⟩

theorem Concluded.mono {t' : Trace} (h : Concluded t jobId) (ht : t <:+ t') :
    Concluded t' jobId :=
  h.imp_right fun ⟨r, hr⟩ => ⟨r, hr.mono ht⟩

theorem Buried.mono {t' : Trace} (h : Buried d m t) (ht : t <:+ t') : Buried d m t' := fun hn =>
  ht.subset (h hn)

theorem Grounds.mono {t' : Trace} {r : ExecutionResult} (h : Grounds d m t jobId r)
    (ht : t <:+ t') : Grounds d m t' jobId r := by
  cases h with
  | ran hreq hx hr => exact .ran hreq (ht.subset hx) hr
  | cancelled hc => exact .cancelled (ht.subset hc)
  | exhausted hn => exact .exhausted hn
  | malformed he => exact .malformed he
  | raised hc he => exact .raised (ht.subset hc) he

/-! ### Rules for single programs -/

section Rules

variable {role : Role} {α β : Type}

theorem wp_issue {c : Cmd} {Q : Except Exc (Reply c) → Trace → Prop}
    (hc : Reports d role t c) (hQ : ∀ r, Q r (⟨c, r⟩ :: t)) :
    (issue c).wp (reportsContract d role) Q t := by
  rw [wp_perform]
  exact ⟨hc, fun r _ => hQ r⟩

/-- A program whose commands are all unreported may be run at any time. -/
theorem wp_unreported {p : Prog α} (hp : p.Issues fun c => c.unreported = true) (role : Role)
    (t : Trace) : p.wp (reportsContract d role) (fun _ _ => True) t :=
  hp.wp_any (fun t _ hc => reports_of_unreported hc role t) t

/-- Such a program in front of another one. -/
theorem wp_unreported_bind {p : Prog α} {f : α → Prog β} {Q : Except Exc β → Trace → Prop}
    (hp : p.Issues fun c => c.unreported = true)
    (hf : ∀ a t', t <:+ t' → (f a).wp (reportsContract d role) Q t')
    (herr : ∀ e t', t <:+ t' → Q (.error e) t') :
    (p >>= f).wp (reportsContract d role) Q t :=
  wp_bind_of (wp_unreported hp role t) (fun a t' hs _ => hf a t' hs) fun e t' hs _ => herr e t' hs

end Rules

namespace Worker

/-! ### Storing and announcing a result -/

section Process

variable {w : Str} {role : Role}

theorem archive_unreported (cfg : WorkerConfig) (jobId : Str) (r : ExecutionResult) :
    (archive cfg jobId r).Issues fun c => c.unreported = true :=
  issues_ite (issues_tryCatch (issues_perform rfl) fun _ => issues_pure _) (issues_pure _)

theorem patchRecord_unreported (jobId : Str) (fields : JobRecord → JobRecord) :
    (patchRecord jobId fields).Issues fun c => c.unreported = true := by
  refine issues_bind (issues_perform rfl) fun found => ?_
  cases found with
  | none => exact issues_pure _
  | some record => exact issues_bind (issues_perform rfl) fun _ => issues_pure _

theorem releaseSlot_unreported (userId jobId : Str) :
    (releaseSlot userId jobId).Issues fun c => c.unreported = true :=
  issues_ite (issues_pure _) (issues_tryCatch (issues_perform rfl) fun _ => issues_pure _)

/-- `store_terminal` returns after it wrote the result. -/
theorem storeTerminal_reports (cfg : WorkerConfig) {r : ExecutionResult}
    (hr : ∀ t', t <:+ t' → Reports d role t' (.setResult jobId r)) :
    (storeTerminal cfg jobId r).wp (reportsContract d role)
      (fun out t' => out = .ok () → ⟨.setResult jobId r, .ok ()⟩ ∈ t') t := by
  refine wp_unreported_bind (archive_unreported cfg jobId r) ?_ fun _ _ _ h => by cases h
  intro _ t₁ hs₁
  refine wp_bind_of (M := fun a t' => ⟨.setResult jobId r, a⟩ ∈ t')
    (wp_issue (hr t₁ hs₁) fun _ => List.mem_cons_self) ?_ fun _ _ _ _ h => by cases h
  intro _ t₂ _ hmem
  refine wp_unreported_bind (patchRecord_unreported jobId _) ?_ fun _ _ _ h => by cases h
  exact fun _ t₃ hs₃ _ => hs₃.subset hmem

/-- Storing and announcing a result, as the three ways of ending a job do. -/
theorem storeAndPublish_reports (cfg : WorkerConfig) {r : ExecutionResult}
    (hm : jobIdOf d.py m.payload = .ok jobId) (hr : Grounds d m t jobId r) :
    (storeTerminal cfg jobId r >>= fun _ => publishDone jobId r).wp
      (reportsContract d (.delivery w m)) (fun out t' => out = .ok () → Announced t' jobId r) t := by
  refine wp_bind_of (storeTerminal_reports cfg fun t' hs => ⟨w, m, rfl, hm, hr.mono hs⟩) ?_
    fun _ _ _ _ h => by cases h
  intro _ t₁ _ hst
  refine wp_issue ⟨w, m, rfl, hm, r, hst rfl, rfl⟩ fun a ha => ?_
  subst ha
  exact ⟨t₁, List.suffix_rfl, hst rfl⟩

theorem finalizeFailed_reports (cfg : WorkerConfig) {e : Exc}
    (hm : jobIdOf d.py m.payload = .ok jobId) (hr : Grounds d m t jobId (failedResult jobId e)) :
    (finalizeFailed cfg jobId e).wp (reportsContract d (.delivery w m))
      (fun out t' => out = .ok () → Announced t' jobId (failedResult jobId e)) t :=
  storeAndPublish_reports cfg hm hr

/-- `_run_job` reports what the executor returned. -/
theorem runJob_reports (cfg : WorkerConfig) {request : ExecutionRequest}
    (hm : jobIdOf d.py m.payload = .ok jobId) (hreq : requestOf d.py m.payload = .ok request)
    (hc : ⟨.existsCancel jobId, .ok false⟩ ∈ t) :
    (runJob cfg jobId request).wp (reportsContract d (.delivery w m))
      (fun out t' => out = .ok () → ∃ r, Announced t' jobId r) t := by
  refine wp_unreported_bind (issues_perform rfl) ?_ fun _ _ _ h => by cases h
  intro _ t₁ hs₁
  refine wp_unreported_bind (issues_bind (patchRecord_unreported jobId _) fun _ => issues_pure _)
    ?_ fun _ _ _ h => by cases h
  intro _ t₂ hs₂
  refine wp_bind_of (M := fun _ _ => True)
    (wp_issue ⟨w, m, rfl, hm, rfl, hs₂.subset (hs₁.subset hc)⟩ fun _ => trivial) ?_
    fun _ _ _ _ h => by cases h
  intro _ t₃ _ _
  refine wp_bind_of (M := fun a t' => ⟨.execute request jobId, a⟩ ∈ t')
    (wp_issue trivial fun _ => List.mem_cons_self) ?_ fun _ _ _ _ h => by cases h
  intro execution t₄ _ hx
  refine wp_unreported_bind (issues_ofExcept _) ?_ fun _ _ _ h => by cases h
  intro _ t₅ hs₅
  refine wp_unreported_bind (issues_perform rfl) ?_ fun _ _ _ h => by cases h
  intro _ t₆ hs₆
  rw [wp_bind, wp_ofExcept]
  cases hout : execution.outcome with
  | error e => exact fun h => by cases h
  | ok r =>
    have hx₆ := hs₆.subset (hs₅.subset hx)
    refine wp_of_extends (storeAndPublish_reports cfg hm (.ran hreq hx₆ hout)) ?_
    exact fun _ t₇ _ h hret => ⟨r, h hret⟩

/-! ### Settling the entry -/

theorem ack_reports (hm : jobIdOf d.py m.payload = .ok jobId) (hc : Concluded t jobId)
    (hb : Buried d m t) :
    (ack m.msgId).wp (reportsContract d (.delivery w m)) (fun _ _ => True) t := by
  refine wp_bind_of (M := fun _ _ => True)
    (wp_issue ⟨jobId, w, m, rfl, hm, rfl, hc, hb⟩ fun _ => trivial) ?_ fun _ _ _ _ => trivial
  exact fun _ t₁ hs _ =>
    wp_issue ⟨jobId, w, m, rfl, hm, rfl, hc.mono hs, hb.mono hs⟩ fun _ => trivial

theorem releaseThenAck_reports (hm : jobIdOf d.py m.payload = .ok jobId) (hc : Concluded t jobId)
    (hn : ¬ d.maxRetries < m.deliveryCount) (userId : Str) :
    (releaseSlot userId jobId >>= fun _ => ack m.msgId).wp (reportsContract d (.delivery w m))
      (fun _ _ => True) t :=
  wp_unreported_bind (releaseSlot_unreported userId jobId)
    (fun _ _ hs => ack_reports hm (hc.mono hs) fun h => absurd h hn) fun _ _ _ => trivial

/-- Both branches that give an entry up release the slot and dead-letter the entry. -/
theorem releaseThenBury_reports (hm : jobIdOf d.py m.payload = .ok jobId) {reason : Str}
    (hc : Concluded t jobId) (hr : ∀ t', t <:+ t' → Buries d m t' jobId reason)
    (hreason : d.maxRetries < m.deliveryCount → reason = str "max_retries_exceeded")
    (userId : Str) :
    (releaseSlot userId jobId >>= fun _ => deadLetter m reason).wp
      (reportsContract d (.delivery w m)) (fun _ _ => True) t := by
  refine wp_unreported_bind (releaseSlot_unreported userId jobId) ?_ fun _ _ _ => trivial
  intro _ t₁ hs₁
  refine wp_bind_of
    (M := fun a t' => ⟨.xaddDead ⟨m.payload, reason, m.deliveryCount⟩, a⟩ ∈ t')
    (wp_issue ⟨jobId, w, m, rfl, hm, rfl, rfl, hr t₁ hs₁⟩ fun _ => List.mem_cons_self) ?_
    fun _ _ _ _ => trivial
  intro _ t₂ hs₂ hmem
  refine ack_reports hm (hc.mono (hs₁.trans hs₂)) fun hn => ?_
  rw [← hreason hn]
  exact hmem

theorem onFailure_reports (cfg : WorkerConfig) (hm : jobIdOf d.py m.payload = .ok jobId)
    (hn : ¬ d.maxRetries < m.deliveryCount) (hc : ⟨.existsCancel jobId, .ok false⟩ ∈ t)
    (userId : Str) (e : Exc) :
    (onFailure cfg userId jobId m.msgId e).wp (reportsContract d (.delivery w m))
      (fun _ _ => True) t := by
  unfold onFailure
  split_ifs with he
  · exact trivial
  · refine wp_bind_of (finalizeFailed_reports cfg hm (.raised hc (Bool.eq_false_iff.mpr he))) ?_
      fun _ _ _ _ => trivial
    exact fun _ t₁ _ ha => releaseThenAck_reports hm (.inr ⟨_, ha rfl⟩) hn userId

theorem processRequest_reports (cfg : WorkerConfig) (hm : jobIdOf d.py m.payload = .ok jobId)
    (hn : ¬ d.maxRetries < m.deliveryCount) {request : ExecutionRequest}
    (hreq : requestOf d.py m.payload = .ok request) (userId : Str) :
    (processRequest cfg userId jobId request m.msgId).wp (reportsContract d (.delivery w m))
      (fun _ _ => True) t := by
  refine wp_bind_of (M := fun a t' => ⟨.existsCancel jobId, a⟩ ∈ t')
    (wp_issue trivial fun _ => List.mem_cons_self) ?_ fun _ _ _ _ => trivial
  intro cancelled t₁ _ hmem
  cases cancelled with
  | true =>
    refine wp_bind_of (storeAndPublish_reports cfg hm (.cancelled hmem)) ?_ fun _ _ _ _ => trivial
    exact fun _ t₂ _ ha => releaseThenAck_reports hm (.inr ⟨_, ha rfl⟩) hn userId
  | false =>
    refine wp_tryCatch_of (M := fun _ _ => True) ?_ (fun _ _ _ _ => trivial) fun e t₂ hs₂ _ =>
      onFailure_reports cfg hm hn (hs₂.subset hmem) userId e
    refine wp_bind_of (runJob_reports cfg hm hreq hmem) ?_ fun _ _ _ _ => trivial
    exact fun _ t₂ _ ha => releaseThenAck_reports hm (.inr (ha rfl)) hn userId

theorem processExhausted_reports (cfg : WorkerConfig) (hm : jobIdOf d.py m.payload = .ok jobId)
    (hn : d.maxRetries < m.deliveryCount) (userId : Str) :
    (processExhausted cfg userId jobId m).wp (reportsContract d (.delivery w m))
      (fun _ _ => True) t := by
  refine wp_bind_of (finalizeFailed_reports cfg hm (.exhausted hn)) ?_ fun _ _ _ _ => trivial
  intro _ t₁ _ ha
  exact releaseThenBury_reports hm (.inr ⟨_, ha rfl⟩)
    (fun _ hs => .exhausted hn ((ha rfl).mono hs)) (fun _ => rfl) userId

theorem processMalformed_reports (cfg : WorkerConfig) (hm : jobIdOf d.py m.payload = .ok jobId)
    (hn : ¬ d.maxRetries < m.deliveryCount) {e : Exc}
    (he : requestOf d.py m.payload = .error e) (userId : Str) :
    (processMalformed cfg userId jobId m).wp (reportsContract d (.delivery w m))
      (fun _ _ => True) t := by
  have hend : ∀ t', Concluded t' jobId → (releaseSlot userId jobId >>= fun _ =>
      deadLetter m (str "malformed_payload")).wp (reportsContract d (.delivery w m))
        (fun _ _ => True) t' := fun t' hc =>
    releaseThenBury_reports hm hc (fun _ hs => .malformed he (hc.mono hs))
      (fun h => absurd h hn) userId
  dsimp only [processMalformed]
  split_ifs with hnil
  · exact hend t (.inl hnil)
  · refine wp_bind_of (finalizeFailed_reports cfg hm (.malformed he)) ?_ fun _ _ _ _ => trivial
    exact fun _ t₁ _ ha => hend t₁ (.inr ⟨_, ha rfl⟩)

/-- **Every branch of `_process` reports before it settles the entry.** -/
theorem process_reports (wid : Str) :
    (process d.py (d.worker wid) m).wp (reportsContract d (.delivery w m)) (fun _ _ => True) t := by
  refine wp_bind_of (M := fun out _ => jobIdOf d.py m.payload = out)
    ((wp_ofExcept _ _ _).mpr rfl) ?_ fun _ _ _ _ => trivial
  intro jobId t₁ _ hm
  refine wp_unreported_bind (issues_ofExcept _) ?_ fun _ _ _ => trivial
  intro userId t₂ _
  split_ifs with hn
  · exact processExhausted_reports _ hm hn userId
  · cases hreq : requestOf d.py m.payload with
    | ok request => exact processRequest_reports _ hm hn hreq userId
    | error e =>
      dsimp only
      split_ifs
      · exact processMalformed_reports _ hm hn hreq userId
      · exact trivial

end Process

/-! ### The consume loop -/

theorem ensureGroup_unreported (ready : Bool) :
    (ensureGroup ready).Issues fun c => c.unreported = true :=
  issues_ite (issues_pure _) (issues_bind (issues_perform rfl) fun _ => issues_pure _)

theorem claimEach_unreported (consumer : Str) (minIdle : ℕ) (shown : List (ℕ × ℕ)) :
    ∀ claimed, (claimEach consumer minIdle shown claimed).Issues fun c => c.unreported = true := by
  induction shown with
  | nil => exact fun _ => issues_pure _
  | cons x shown ih => exact fun _ => issues_bind (issues_perform rfl) fun _ => ih _

theorem dispatch_unreported (ms : List QueueMessage) :
    (dispatch ms).Issues fun c => c.unreported = true := by
  induction ms with
  | nil => exact issues_pure _
  | cons m ms ih => exact issues_bind (issues_perform rfl) fun _ => ih

theorem consume_unreported (cfg : WorkerConfig) (ready : Bool) (batch : ℕ) (again : Option ℕ) :
    (consume cfg ready batch again).Issues fun c => c.unreported = true := by
  refine issues_bind (issues_tryCatch (issues_perform rfl) fun _ =>
    issues_ite (issues_pure _) (issues_throw _)) fun _ => ?_
  refine issues_bind (issues_bind (ensureGroup_unreported ready) fun _ =>
    issues_bind (issues_perform rfl) fun shown => claimEach_unreported _ _ shown []) fun stale => ?_
  refine issues_bind (dispatch_unreported stale) fun _ => ?_
  cases again with
  | none => exact issues_pure _
  | some count =>
    refine issues_bind (issues_bind (ensureGroup_unreported true) fun _ =>
      issues_bind (issues_perform rfl) fun _ => issues_pure _) fun new => ?_
    exact dispatch_unreported new

end Worker

/-! ### The API server -/

namespace Api

variable (config : AppConfig)

theorem releaseSlot_unreported (userId jobId : Str) :
    (releaseSlot userId jobId).Issues fun c => c.unreported = true :=
  issues_tryCatch (issues_perform rfl) fun _ => issues_pure _

theorem enqueueJob_unreported (sub : Submission) :
    (enqueueJob sub).Issues fun c => c.unreported = true :=
  issues_bind (issues_ite (issues_pure _) (issues_bind (issues_perform rfl) fun _ => issues_pure _))
    fun _ => issues_perform rfl

theorem acquireSlot_unreported (p : Principal) (jobId : Str) :
    (acquireSlot config p jobId).Issues fun c => c.unreported = true :=
  issues_tryCatch (issues_perform rfl) fun _ => issues_pure _

theorem submit_unreported (sub : Submission) :
    (submit config sub).Issues fun c => c.unreported = true := by
  refine issues_bind (acquireSlot_unreported config _ _) fun _ => issues_ite ?_ ?_
  · exact issues_bind (enqueueJob_unreported sub) fun _ => issues_pure _
  · exact issues_bind (issues_perform rfl) fun _ => issues_pure _

theorem postExecuteAsync_unreported (sub : Submission) :
    (postExecuteAsync config sub).Issues fun c => c.unreported = true :=
  issues_bind (submit_unreported config sub) fun _ => issues_ite (issues_perform rfl) (issues_pure _)

theorem getJob_unreported (p : Principal) (jobId : Str) :
    (getJob p jobId).Issues fun c => c.unreported = true := by
  refine issues_ite (issues_bind (issues_perform rfl) fun found => ?_) (issues_perform rfl)
  cases found with
  | none => exact issues_perform rfl
  | some record => exact issues_ite (issues_perform rfl) (issues_perform rfl)

theorem deleteJob_unreported (p : Principal) (jobId : Str) :
    (deleteJob p jobId).Issues fun c => c.unreported = true := by
  refine issues_ite (issues_bind (issues_perform rfl) fun found => ?_) (issues_perform rfl)
  cases found with
  | none => exact issues_perform rfl
  | some record =>
    refine issues_ite (issues_ite (issues_perform rfl) ?_) (issues_perform rfl)
    exact issues_bind (issues_perform rfl) fun _ =>
      issues_bind (releaseSlot_unreported _ _) fun _ => issues_perform rfl

theorem cleanup_unreported (p : Principal) (conn : ℕ) :
    (cleanup p conn).Issues fun c => c.unreported = true := by
  have hrest : (do
      let subscriber : Bool ← issue (.wsClearTimer conn)
      if subscriber then MonadExcept.tryCatch (issue (.wsQuit conn)) fun _ => Pure.pure ()
      else Pure.pure ()
      issue (.wsClosed conn) : Prog Unit).Issues fun c => c.unreported = true := by
    refine issues_bind (issues_perform rfl) fun _ => issues_ite ?_ (issues_perform rfl)
    exact issues_bind (issues_tryCatch (issues_perform rfl) fun _ => issues_pure _)
      fun _ => issues_perform rfl
  refine issues_bind (issues_perform rfl) fun slot => ?_
  cases slot with
  | none => exact issues_pure _
  | some slotJobId =>
    cases slotJobId with
    | none => exact hrest
    | some jobId => exact issues_bind (releaseSlot_unreported _ _) fun _ => hrest

theorem finish_unreported (p : Principal) (conn : ℕ) :
    (finish p conn).Issues fun c => c.unreported = true :=
  issues_bind (issues_perform rfl) fun _ => issues_ite (issues_pure _)
    (issues_bind (cleanup_unreported p conn) fun _ => issues_perform rfl)

theorem refuse_unreported (p : Principal) (conn : ℕ) (title detail : Str) :
    (refuse p conn title detail).Issues fun c => c.unreported = true :=
  issues_bind (issues_perform rfl) fun _ => finish_unreported p conn

theorem startStream_unreported (sub : Submission) (conn : ℕ) :
    (startStream sub conn).Issues fun c => c.unreported = true := by
  refine issues_bind (issues_perform rfl) fun _ => issues_bind (issues_perform rfl) fun _ =>
    issues_bind (issues_perform rfl) fun _ => issues_bind (issues_perform rfl) fun _ => ?_
  refine issues_ite ?_ (issues_throw _)
  exact issues_bind (enqueueJob_unreported sub) fun _ =>
    issues_bind (issues_perform rfl) fun _ => issues_pure _

theorem onStart_unreported (p : Principal) (ip : Str) (conn : ℕ) (frame : StartFrame) :
    (onStart config p ip conn frame).Issues fun c => c.unreported = true := by
  refine issues_tryCatch ?_ fun e => issues_bind (issues_perform rfl) fun _ =>
    finish_unreported p conn
  cases frame with
  | notJson => exact refuse_unreported _ _ _ _
  | null => exact issues_throw _
  | notStart => exact refuse_unreported _ _ _ _
  | invalid detail => exact refuse_unreported _ _ _ _
  | start sub =>
    refine issues_bind (issues_perform rfl) fun blocked => ?_
    cases blocked with
    | some ms => exact refuse_unreported _ _ _ _
    | none =>
      exact issues_bind (acquireSlot_unreported config _ _) fun _ =>
        issues_ite (startStream_unreported _ _) (refuse_unreported _ _ _ _)

variable {config}

/-- The record that `waitForTerminal` returns was read. -/
theorem waitForTerminal_reports {role : Role} (n : ℕ) : ∀ {t : Trace},
    (waitForTerminal jobId n).wp (reportsContract d role)
      (fun out t' => ∀ record, out = .ok (some record) →
        ⟨.getRecord jobId, .ok (some record)⟩ ∈ t') t := by
  induction n with
  | zero =>
    refine fun {t} => wp_issue trivial fun a record ha => ?_
    subst ha
    exact List.mem_cons_self
  | succ n ih =>
    intro t
    refine wp_bind_of (M := fun a t' => ⟨.getRecord jobId, a⟩ ∈ t')
      (wp_issue trivial fun _ => List.mem_cons_self) ?_ fun _ _ _ _ _ h => by cases h
    intro found t₁ _ hmem
    cases found with
    | none => exact ih
    | some last =>
      dsimp only
      split_ifs with hterm
      · intro record h
        cases h
        exact hmem
      · exact ih

/-- A record that is answered with a result is terminal. -/
theorem syncResponse_eq_result {found : Option JobRecord} {r : ExecutionResult}
    (h : syncResponse found = .result r) : ∃ record, found = some record ∧
      record.status.Terminal ∧ r = record.result.getD (fallbackResult record) := by
  cases found with
  | none => cases h
  | some record =>
    simp only [syncResponse] at h
    split_ifs at h with hst
    · cases h
    · refine ⟨record, rfl, ?_, (Response.result.inj h).symm⟩
      revert hst
      cases record.status <;> decide

/-- **`POST /v1/execute` answers with the result of a terminal record that it has read.** -/
theorem postExecute_reports (sub : Submission) (polls : ℕ) :
    (postExecute config sub polls).wp (reportsContract d (.submission sub)) (fun _ _ => True) t := by
  refine wp_unreported_bind (submit_unreported config sub) ?_ fun _ _ _ => trivial
  intro accepted t₁ _
  split_ifs
  · refine wp_bind_of (waitForTerminal_reports polls) ?_ fun _ _ _ _ => trivial
    intro found t₂ _ hread
    refine wp_unreported_bind (releaseSlot_unreported _ _) ?_ fun _ _ _ => trivial
    intro _ t₃ hs₃
    refine wp_issue ?_ fun _ => trivial
    cases hres : syncResponse found with
    | result r =>
      obtain ⟨record, rfl, hterm, hr⟩ := syncResponse_eq_result hres
      exact ⟨sub, record, rfl, hs₃.subset (hread record rfl), hterm, hr⟩
    | _ => exact trivial
  · exact trivial

end Api

/-! ### The whole system -/

theorem handler_reports (q : Request) :
    (system d).Kept (reportDiscipline d) (handler d q).1 [] (handler d q).2 := by
  cases q with
  | postExecute sub polls => exact Api.postExecute_reports sub polls
  | postExecuteAsync sub => exact wp_unreported (Api.postExecuteAsync_unreported _ sub) _ _
  | getJob p jobId => exact wp_unreported (Api.getJob_unreported p jobId) _ _
  | deleteJob p jobId => exact wp_unreported (Api.deleteJob_unreported p jobId) _ _
  | streamStart conn ip frame => exact wp_unreported (Api.onStart_unreported _ _ ip conn frame) _ _
  | streamClose conn => exact wp_unreported (Api.cleanup_unreported _ conn) _ _
  | streamFinish conn => exact wp_unreported (Api.finish_unreported _ conn) _ _
  | consume w ready batch again =>
    exact wp_unreported (Worker.consume_unreported _ ready batch again) _ _

/-- **Every process of a reachable state keeps the discipline of the reports.** -/
theorem reachable_reports (h : (system d).Reachable s) :
    ∀ p ∈ s.procs, (system d).Kept (reportDiscipline d) p.role p.trace p.prog := by
  refine System.reachable_kept h handler_reports fun role t c _ x hx => ?_
  change x ∈ fork d role c at hx
  unfold fork at hx
  split at hx
  · obtain rfl := List.mem_singleton.mp hx
    exact Worker.process_reports _
  · exact absurd hx List.not_mem_nil

/-- Every command of the history satisfied the discipline, after a trace that is part of the older
history. -/
theorem reported_of_suffix (h : (system d).Reachable s) {o : Occurrence Cmd Reply Exc Role}
    {older : History} (ho : o :: older <:+ s.hist) :
    ∃ t, Reports d o.role t o.event.cmd ∧ System.Traced older o.role t :=
  System.reachable_allowed h (D := reportDiscipline d) (fun _ ht => reachable_reports ht) o older ho

/-- The same for a member of the history. -/
theorem reported_of_mem (h : (system d).Reachable s) {o : Occurrence Cmd Reply Exc Role}
    (ho : o ∈ s.hist) : ∃ older t, o :: older <:+ s.hist ∧ Reports d o.role t o.event.cmd ∧
      System.Traced older o.role t := by
  obtain ⟨newer, older, heq⟩ := List.append_of_mem ho
  have hsuf : o :: older <:+ s.hist := ⟨newer, heq.symm⟩
  obtain ⟨t, ht, hrec⟩ := reported_of_suffix h hsuf
  exact ⟨older, t, hsuf, ht, hrec⟩

/-- What the next command of a process of a reachable state satisfies. -/
theorem reports_next (h : (system d).Reachable s) {p : Process Cmd Reply Exc Role}
    (hp : p ∈ s.procs) {c : Cmd} {k : Except Exc (Reply c) → Prog Unit} (hc : p.prog = .call c k) :
    Reports d p.role p.trace c :=
  (reachable_reports h p hp).allows hc

end CodeInterpreter
