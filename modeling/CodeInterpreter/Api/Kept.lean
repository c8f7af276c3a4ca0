import CodeInterpreter.Worker.Kept

/-!
# The API server keeps the discipline

The routes and the handlers of a WebSocket connection keep the discipline of their roles. With
the worker's programs this covers every program of the system.

## Main results

* `handler_kept`, `fork_kept`: the programs that requests start and commands fork.
* `reachable_discipline`: in every reachable state every process keeps the discipline.
-/

namespace CodeInterpreter.Api

open Async

variable {d : Deployment} {role : Role} {t : Trace} {jobId : Str}

/-! ### Submissions -/

/-- A slot was asked for, the answer was not a refusal, and nothing is enqueued yet. -/
def Granted (d : Deployment) (sub : Submission) (t : Trace) : Prop :=
  Unqueued t ∧ ∃ a : Except Exc Bool, a ≠ .ok false ∧ ⟨acquireCmd d sub, a⟩ ∈ t

theorem unqueued_cons {e : Event Cmd Reply Exc} (ht : Unqueued t)
    (he : ∀ payload record, e.cmd ≠ .enqueue payload record) : Unqueued (e :: t) := by
  intro e' he'
  rcases List.mem_cons.mp he' with rfl | he'
  · exact he
  · exact ht e' he'

theorem Granted.cons {sub : Submission} {e : Event Cmd Reply Exc} (h : Granted d sub t)
    (he : ∀ payload record, e.cmd ≠ .enqueue payload record) : Granted d sub (e :: t) := by
  obtain ⟨hun, a, ha, hmem⟩ := h
  exact ⟨unqueued_cons hun he, a, ha, List.mem_cons_of_mem e hmem⟩

/-- `acquireSlot` fails open. -/
theorem acquireSlot_keeps (ht : midStore t = none) (hun : Unqueued t) {sub : Submission}
    (hs : submissionOf d role = some sub) :
    Keeps d role (acquireSlot d.app sub.principal sub.jobId) t
      fun out t' => out = .ok true → Granted d sub t' := by
  refine keeps_tryCatch (M := fun r t' => Unqueued t' ∧ ⟨acquireCmd d sub, r⟩ ∈ t')
    (keeps_issue ht (fun _ => rfl) ⟨sub, hs, rfl⟩ fun _ =>
      ⟨unqueued_cons hun fun _ _ h => (by cases h), List.mem_cons_self⟩) ?_ ?_
  · rintro a t₁ _ ⟨hun₁, hmem⟩ ⟨rfl⟩
    exact ⟨hun₁, .ok true, fun h => (by cases h), hmem⟩
  · rintro e t₁ _ ht₁ ⟨hun₁, hmem⟩
    exact keeps_pure ht₁ fun _ => ⟨hun₁, .error e, fun h => (by cases h), hmem⟩

/-- A command that keeps a granted submission granted. -/
theorem granted_keeps (ht : midStore t = none) {sub : Submission} (hg : Granted d sub t) {c : Cmd}
    (hc : ∀ r, storedOf ⟨c, r⟩ = none) (hp : Permits d role t c)
    (hne : ∀ payload record, c ≠ .enqueue payload record) :
    Keeps d role (issue c) t fun _ t' => Granted d sub t' :=
  keeps_issue ht hc hp fun _ => hg.cons hne

theorem ensureConsumerGroup_keeps (ht : midStore t = none) {sub : Submission}
    (hg : Granted d sub t) (ensured : Bool) :
    Keeps d role (ensureConsumerGroup ensured) t fun _ t' => Granted d sub t' := by
  refine keeps_ite (fun _ => keeps_pure ht hg) fun _ => ?_
  refine keeps_bind (granted_keeps ht hg (fun _ => rfl) trivial fun _ _ h => by cases h) ?_
    fun _ _ _ h => h
  exact fun _ _ _ ht₁ hg₁ => keeps_pure ht₁ hg₁

theorem enqueueJob_keeps (ht : midStore t = none) {sub : Submission}
    (hs : submissionOf d role = some sub) (hg : Granted d sub t) :
    Keeps d role (enqueueJob sub) t anyEnd := by
  refine keeps_bind (ensureConsumerGroup_keeps ht hg sub.groupEnsured) ?_ fun _ _ _ _ => trivial
  intro _ t₁ _ ht₁ hg₁
  exact keeps_issue ht₁ (fun _ => rfl) ⟨sub, hs, rfl, rfl, hg₁⟩ fun _ => trivial

theorem respond_keeps (ht : midStore t = none) {r : Response} (hr : Answers role t r) :
    Keeps d role (issue (.respond r)) t anyEnd :=
  keeps_issue ht (fun _ => rfl) hr fun _ => trivial

theorem submit_keeps (ht : midStore t = none) (hun : Unqueued t) {sub : Submission}
    (hs : submissionOf d role = some sub) : Keeps d role (submit d.app sub) t anyEnd := by
  refine keeps_bind (acquireSlot_keeps ht hun hs) ?_ fun _ _ _ _ => trivial
  intro granted t₁ _ ht₁ hg
  refine keeps_ite (fun h => ?_) fun _ => ?_
  · subst h
    refine keeps_bind (enqueueJob_keeps ht₁ hs (hg rfl)) ?_ fun _ _ _ _ => trivial
    exact fun _ _ _ ht₂ _ => keeps_pure ht₂ trivial
  · refine keeps_bind (respond_keeps ht₁ trivial) ?_ fun _ _ _ _ => trivial
    exact fun _ _ _ ht₂ _ => keeps_pure ht₂ trivial

theorem releaseSlot_keeps (ht : midStore t = none) {userId : Str}
    (hr : Releases d role t userId jobId) : Keeps d role (releaseSlot userId jobId) t anyEnd :=
  keeps_bestEffort ht (fun _ => rfl) hr fun _ _ ht' => keeps_pure ht' trivial

theorem waitForTerminal_keeps (n : ℕ) :
    ∀ {t : Trace}, midStore t = none → Keeps d role (waitForTerminal jobId n) t anyEnd := by
  induction n with
  | zero => exact fun ht => keeps_issue ht (fun _ => rfl) trivial fun _ => trivial
  | succ n ih =>
    intro t ht
    refine keeps_bind (M := anyEnd) (keeps_issue ht (fun _ => rfl) trivial fun _ => trivial) ?_
      fun _ _ _ _ => trivial
    intro r t₁ _ ht₁ _
    cases r with
    | none => exact ih ht₁
    | some last =>
      exact keeps_ite (fun _ => keeps_pure ht₁ trivial) fun _ => ih ht₁

theorem postExecute_keeps (ht : midStore t = none) (hun : Unqueued t) (sub : Submission)
    (polls : ℕ) : Keeps d (.submission sub) (postExecute d.app sub polls) t anyEnd := by
  refine keeps_bind (submit_keeps ht hun rfl) ?_ fun _ _ _ _ => trivial
  intro accepted t₁ _ ht₁ _
  refine keeps_ite (fun _ => ?_) fun _ => ?_
  · refine keeps_bind (waitForTerminal_keeps polls ht₁) ?_ fun _ _ _ _ => trivial
    intro record t₂ _ ht₂ _
    refine keeps_bind (releaseSlot_keeps ht₂ trivial) ?_ fun _ _ _ _ => trivial
    refine fun _ t₃ _ ht₃ _ => respond_keeps ht₃ ?_
    unfold syncResponse
    split
    · split_ifs <;> exact trivial
    · exact trivial
  · exact keeps_pure ht₁ trivial

theorem postExecuteAsync_keeps (ht : midStore t = none) (hun : Unqueued t) (sub : Submission) :
    Keeps d (.submission sub) (postExecuteAsync d.app sub) t anyEnd := by
  refine keeps_bind (submit_keeps ht hun rfl) ?_ fun _ _ _ _ => trivial
  intro accepted t₁ _ ht₁ _
  refine keeps_ite (fun _ => ?_) fun _ => ?_
  · exact respond_keeps ht₁ trivial
  · exact keeps_pure ht₁ trivial

/-! ### Job routes -/

theorem getJob_keeps (ht : midStore t = none) (p : Principal) (jobId : Str) :
    Keeps d (.getJob p jobId) (getJob p jobId) t anyEnd := by
  refine keeps_ite (fun _ => ?_) fun _ => ?_
  · refine keeps_bind (M := fun r t' => ⟨.getRecord jobId, r⟩ ∈ t')
      (keeps_issue ht (fun _ => rfl) trivial fun _ => List.mem_cons_self) ?_ fun _ _ _ _ => trivial
    intro r t₁ _ ht₁ hmem
    cases r with
    | none => exact respond_keeps ht₁ trivial
    | some record =>
      refine keeps_ite (fun howner => ?_) fun _ => ?_
      · exact respond_keeps ht₁ ⟨p, jobId, rfl, ⟨_, hmem, rfl⟩, howner⟩
      · exact respond_keeps ht₁ trivial
  · exact respond_keeps ht trivial

/-- `DELETE` marks only a live job of its own principal. -/
theorem deleteJob_keeps (ht : midStore t = none) (p : Principal) (jobId : Str) :
    Keeps d (.deleteJob p jobId) (deleteJob p jobId) t anyEnd := by
  refine keeps_ite (fun _ => ?_) fun _ => ?_
  · refine keeps_bind (M := fun r t' => t'.head? = some ⟨.getRecord jobId, r⟩)
      (keeps_issue ht (fun _ => rfl) trivial fun _ => rfl) ?_ fun _ _ _ _ => trivial
    intro r t₁ _ ht₁ hhead
    cases r with
    | none => exact respond_keeps ht₁ trivial
    | some old =>
      have hread : t₁.head?.bind readOf = some (jobId, old) := by rw [hhead]; rfl
      have hmem : ⟨.getRecord jobId, .ok (some old)⟩ ∈ t₁ := List.mem_of_mem_head? hhead
      refine keeps_ite (fun howner => keeps_ite (fun hterm => ?_) fun hterm => ?_) fun _ => ?_
      · exact respond_keeps ht₁ trivial
      · refine keeps_bind (M := fun r t' => ⟨.cancelMulti jobId (killedRecord old), r⟩ ∈ t')
          (keeps_issue ht₁ (fun _ => rfl) ⟨p, old, rfl, hread, howner, hterm, rfl⟩
            fun _ => List.mem_cons_self) ?_ fun _ _ _ _ => trivial
        intro _ t₂ hs₂ ht₂ hmulti
        refine keeps_bind (releaseSlot_keeps ht₂ ⟨rfl, howner, _, hs₂.subset hmem, old, rfl, howner⟩)
          ?_ fun _ _ _ _ => trivial
        exact fun _ t₃ hs₃ ht₃ _ => respond_keeps ht₃ ⟨p, rfl, _, hs₃.subset hmulti⟩
      · exact respond_keeps ht₁ trivial
  · exact respond_keeps ht trivial

/-! ### WebSocket streams -/

/-- The role may release slots without having ended the job, as connections do. -/
def MayRelease (d : Deployment) (role : Role) : Prop :=
  ∀ t userId jobId, Releases d role t userId jobId

theorem mayRelease_streamEnd (conn : ℕ) : MayRelease d (.streamEnd conn) := fun _ _ _ => trivial

/-- A local command of a connection. -/
theorem local_keeps (ht : midStore t = none) {c : Cmd} (hc : ∀ r, storedOf ⟨c, r⟩ = none)
    (hp : ∀ t, Permits d role t c) : Keeps d role (issue c) t anyEnd :=
  keeps_issue ht hc (hp t) fun _ => trivial

theorem cleanup_keeps (ht : midStore t = none) (hr : MayRelease d role) (p : Principal)
    (conn : ℕ) : Keeps d role (cleanup p conn) t anyEnd := by
  have hclosed : ∀ {t : Trace}, midStore t = none →
      Keeps d role (issue (.wsClosed conn)) t anyEnd := fun ht' =>
    local_keeps ht' (fun _ => rfl) fun _ => trivial
  have hrest : ∀ {t : Trace}, midStore t = none →
      Keeps d role (do
        let subscriber : Bool ← issue (.wsClearTimer conn)
        if subscriber then tryCatch (issue (.wsQuit conn)) fun _ => pure () else pure ()
        issue (.wsClosed conn)) t anyEnd := by
    intro t ht'
    refine keeps_bind (local_keeps ht' (fun _ => rfl) fun _ => trivial) ?_ fun _ _ _ _ => trivial
    intro subscriber t₁ _ ht₁ _
    refine keeps_ite (fun _ => ?_) fun _ => ?_
    · refine keeps_bind (keeps_bestEffort ht₁ (fun _ => rfl) trivial
        fun _ _ ht₂ => keeps_pure ht₂ trivial) ?_ fun _ _ _ _ => trivial
      exact fun _ _ _ ht₂ _ => hclosed ht₂
    · exact hclosed ht₁
  refine keeps_bind (local_keeps ht (fun _ => rfl) fun _ => trivial) ?_ fun _ _ _ _ => trivial
  intro slot t₁ _ ht₁ _
  cases slot with
  | none => exact keeps_pure ht₁ trivial
  | some slotJobId =>
    cases slotJobId with
    | none => exact hrest ht₁
    | some jobId =>
      refine keeps_bind (releaseSlot_keeps ht₁ (hr _ _ _)) ?_ fun _ _ _ _ => trivial
      exact fun _ _ _ ht₂ _ => hrest ht₂

theorem finish_keeps (ht : midStore t = none) (hr : MayRelease d role) (p : Principal)
    (conn : ℕ) : Keeps d role (finish p conn) t anyEnd := by
  refine keeps_bind (local_keeps ht (fun _ => rfl) fun _ => trivial) ?_ fun _ _ _ _ => trivial
  intro settled t₁ _ ht₁ _
  refine keeps_ite (fun _ => ?_) fun _ => ?_
  · exact keeps_pure ht₁ trivial
  · refine keeps_bind (cleanup_keeps ht₁ hr p conn) ?_ fun _ _ _ _ => trivial
    exact fun _ _ _ ht₂ _ => local_keeps ht₂ (fun _ => rfl) fun _ => trivial

theorem refuse_keeps (ht : midStore t = none) (hr : MayRelease d role) (p : Principal)
    (conn : ℕ) (title detail : Str) : Keeps d role (refuse p conn title detail) t anyEnd := by
  refine keeps_bind (local_keeps ht (fun _ => rfl) fun _ => trivial) ?_ fun _ _ _ _ => trivial
  exact fun _ _ _ ht₁ _ => finish_keeps ht₁ hr p conn

theorem startStream_keeps (ht : midStore t = none) {sub : Submission}
    (hs : submissionOf d role = some sub) (hg : Granted d sub t) (conn : ℕ) :
    Keeps d role (startStream sub conn) t anyEnd := by
  refine keeps_bind (granted_keeps ht hg (fun _ => rfl) trivial fun _ _ h => by cases h) ?_
    fun _ _ _ _ => trivial
  intro _ t₁ _ ht₁ hg₁
  refine keeps_bind (granted_keeps ht₁ hg₁ (fun _ => rfl) trivial fun _ _ h => by cases h) ?_
    fun _ _ _ _ => trivial
  intro _ t₂ _ ht₂ hg₂
  refine keeps_bind (granted_keeps ht₂ hg₂ (fun _ => rfl) trivial fun _ _ h => by cases h) ?_
    fun _ _ _ _ => trivial
  intro _ t₃ _ ht₃ hg₃
  refine keeps_bind (granted_keeps ht₃ hg₃ (fun _ => rfl) trivial fun _ _ h => by cases h) ?_
    fun _ _ _ _ => trivial
  intro attached t₄ _ ht₄ hg₄
  refine keeps_ite (fun _ => ?_) fun _ => keeps_throw ht₄ trivial
  refine keeps_bind (enqueueJob_keeps ht₄ hs hg₄) ?_ fun _ _ _ _ => trivial
  intro _ t₅ _ ht₅ _
  refine keeps_bind (local_keeps ht₅ (fun _ => rfl) fun _ => trivial) ?_ fun _ _ _ _ => trivial
  exact fun _ _ _ ht₆ _ => keeps_pure ht₆ trivial

theorem onStart_keeps (ht : midStore t = none) (hun : Unqueued t) (ip : Str) (conn : ℕ)
    (frame : StartFrame) :
    Keeps d (.stream conn frame) (onStart d.app (d.connPrincipal conn) ip conn frame) t anyEnd := by
  have hr : MayRelease d (.stream conn frame) := fun _ _ _ => trivial
  refine keeps_tryCatch (M := anyEnd) ?_ (fun _ _ _ _ => trivial) fun e t₁ _ ht₁ _ => ?_
  · cases frame with
    | notJson => exact refuse_keeps ht hr _ _ _ _
    | null => exact keeps_throw ht trivial
    | notStart => exact refuse_keeps ht hr _ _ _ _
    | invalid detail => exact refuse_keeps ht hr _ _ _ _
    | start sub =>
      have hsub : submissionOf d (.stream conn (.start sub)) =
          some { sub with principal := d.connPrincipal conn } := rfl
      refine keeps_bind (M := fun _ t' => Unqueued t') (keeps_issue ht (fun _ => rfl) trivial
        fun _ => unqueued_cons hun fun _ _ h => by cases h) ?_ fun _ _ _ _ => trivial
      intro blocked t₁ _ ht₁ hun₁
      cases blocked with
      | some ms => exact refuse_keeps ht₁ hr _ _ _ _
      | none =>
        refine keeps_bind (acquireSlot_keeps ht₁ hun₁ hsub) ?_ fun _ _ _ _ => trivial
        intro granted t₂ _ ht₂ hg
        refine keeps_ite (fun h => ?_) fun _ => ?_
        · subst h
          exact startStream_keeps ht₂ hsub (hg rfl) conn
        · exact refuse_keeps ht₂ hr _ _ _ _
  · refine keeps_bind (local_keeps ht₁ (fun _ => rfl) fun _ => trivial) ?_ fun _ _ _ _ => trivial
    exact fun _ _ _ ht₂ _ => finish_keeps ht₂ hr _ conn

end CodeInterpreter.Api

namespace CodeInterpreter

open Async

variable {d : Deployment}

theorem unqueued_nil : Unqueued [] := fun _ he => absurd he List.not_mem_nil

/-- The programs that requests start keep the discipline. -/
theorem handler_kept (q : Request) :
    (system d).Kept (discipline d) (handler d q).1 [] (handler d q).2 := by
  cases q with
  | postExecute sub polls => exact (Api.postExecute_keeps rfl unqueued_nil sub polls).kept
  | postExecuteAsync sub => exact (Api.postExecuteAsync_keeps rfl unqueued_nil sub).kept
  | getJob p jobId => exact (Api.getJob_keeps rfl p jobId).kept
  | deleteJob p jobId => exact (Api.deleteJob_keeps rfl p jobId).kept
  | streamStart conn ip frame => exact (Api.onStart_keeps rfl unqueued_nil ip conn frame).kept
  | streamClose conn => exact (Api.cleanup_keeps rfl (Api.mayRelease_streamEnd conn) _ conn).kept
  | streamFinish conn => exact (Api.finish_keeps rfl (Api.mayRelease_streamEnd conn) _ conn).kept
  | consume w ready batch again => exact (Worker.consume_keeps rfl _ ready batch again).kept

/-- The programs that commands fork keep the discipline. -/
theorem fork_kept (role : Role) (c : Cmd) :
    ∀ x ∈ fork d role c, (system d).Kept (discipline d) x.1 [] x.2 := by
  intro x hx
  unfold fork at hx
  split at hx
  · rw [List.mem_singleton.mp hx]
    exact (Worker.process_keeps rfl _).kept
  · exact absurd hx List.not_mem_nil

/-- **Every process of a reachable state keeps the discipline.** -/
theorem reachable_discipline {s : Sys} (h : (system d).Reachable s) :
    ∀ p ∈ s.procs, (system d).Kept (discipline d) p.role p.trace p.prog :=
  System.reachable_kept h handler_kept fun role _ c _ => fork_kept role c

/-- What the next command of a process of a reachable state satisfies. -/
theorem reachable_allows {s : Sys} (h : (system d).Reachable s) {p : Process Cmd Reply Exc Role}
    (hp : p ∈ s.procs) {c : Cmd} {k : Except Exc (Reply c) → Prog Unit} (hc : p.prog = .call c k) :
    StoreOrder p.trace c ∧ Permits d p.role p.trace c :=
  (reachable_discipline h p hp).allows hc

end CodeInterpreter
