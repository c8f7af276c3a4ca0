import CodeInterpreter.Discipline

/-!
# The worker keeps the discipline

One statement for each asynchronous function of the worker: started with no store in progress it
keeps the discipline of a run of `_process`, or of the consume loop, and ends with no store in
progress. The statements of `storeTerminal` and of what is built on it add that the result was
written when they return.

## Main results

* `process_keeps`: every branch of `_process`.
* `consume_keeps`: the consume loop.
-/

namespace CodeInterpreter.Worker

open Async

variable {d : Deployment} {role : Role} {t : Trace} {jobId : Str}

/-! ### The result store -/

/-- `patch_record` as `set_running` uses it. -/
theorem patchRecord_keeps (ht : midStore t = none) (hj : HandlesJob d role jobId) (w : Str) :
    Keeps d role (patchRecord jobId (runningFields w)) t anyEnd := by
  refine keeps_bind (keeps_issue (Q := fun r t' => t'.head? = some ⟨.getRecord jobId, r⟩) ht
    (fun _ => rfl) trivial fun r => rfl) ?_ fun _ _ _ _ => trivial
  intro r t₁ _ ht₁ hhead
  cases r with
  | none => exact keeps_pure ht₁ trivial
  | some old =>
    have hread : t₁.head?.bind readOf = some (jobId, old) := by rw [hhead]; rfl
    refine keeps_bind (M := anyEnd) (keeps_issue ht₁ (fun _ => rfl)
      ⟨hj, old, hread, .inl ⟨ht₁, w, rfl⟩⟩ fun _ => trivial) ?_ fun _ _ _ _ => trivial
    exact fun _ _ _ ht₂ _ => keeps_pure ht₂ trivial

theorem setRunning_keeps (ht : midStore t = none) (hj : HandlesJob d role jobId) (w : Str) :
    Keeps d role (setRunning jobId w) t anyEnd :=
  keeps_bind (patchRecord_keeps ht hj w) (fun _ _ _ ht' _ => keeps_pure ht' trivial)
    fun _ _ _ _ => trivial

theorem archive_keeps (ht : midStore t = none) (cfg : WorkerConfig) (r : ExecutionResult) :
    Keeps d role (archive cfg jobId r) t anyEnd := by
  unfold archive
  split_ifs
  · exact keeps_bestEffort ht (fun _ => rfl) trivial fun _ _ ht' => keeps_pure ht' trivial
  · exact keeps_pure ht trivial

/-- The end of a store: the record is read right after the result was written, and the record
that is written then carries that result. -/
theorem patchRecord_stores {r : ExecutionResult} {w : Str} (hj : HandlesJob d role jobId)
    (hhead : t.head?.bind storedOf = some (jobId, r)) :
    Keeps d role (patchRecord jobId (terminalFields r w)) t anyEnd := by
  obtain ⟨e, t₀, rfl⟩ : ∃ e t₀, t = e :: t₀ := by
    cases t with
    | nil => cases hhead
    | cons e t₀ => exact ⟨e, t₀, rfl⟩
  have hread : readOf e = none := by
    obtain ⟨c, a⟩ := e
    cases c <;> first | rfl | cases hhead
  have hafter : ∀ a, readOf ⟨.getRecord jobId, a⟩ = none →
      midStore (⟨.getRecord jobId, a⟩ :: e :: t₀) = none := fun a ha => by
    simp only [midStore, storedOf, ha, Option.none_or, Option.bind_none]
  refine keeps_issue_bind ⟨fun j r' h => ?_, fun j r' old _ h => ?_⟩ trivial (fun a => ?_)
    fun e' => ⟨hafter _ rfl, trivial⟩
  · obtain rfl : jobId = j := congrArg Prod.fst (Option.some.inj (hhead.symm.trans h))
    rfl
  · rw [List.head?_cons, Option.bind_some, hread] at h
    cases h
  · cases a with
    | none => exact keeps_pure (hafter _ rfl) trivial
    | some old =>
      have hmid := midStore_read old hhead
      refine keeps_issue_bind ⟨fun j r' h => (by cases h), fun j r' old' h h' => ?_⟩
        ⟨hj, old, rfl, .inr ⟨r, w, hmid, rfl⟩⟩ (fun _ => keeps_pure rfl trivial)
        fun _ => ⟨rfl, trivial⟩
      rw [hmid] at h
      cases h
      exact ⟨_, rfl⟩

/-- `store_terminal` returns only after it wrote the result. -/
theorem storeTerminal_keeps (ht : midStore t = none) (hj : HandlesJob d role jobId)
    (cfg : WorkerConfig) (r : ExecutionResult) :
    Keeps d role (storeTerminal cfg jobId r) t
      fun out t' => out = .ok () → StoredIn t' jobId := by
  refine keeps_bind (archive_keeps ht cfg r) ?_ fun _ _ _ _ h => by cases h
  intro _ t₁ _ ht₁ _
  refine keeps_issue_bind (storeOrder_of_clear ht₁ _) hj (fun _ => ?_)
    fun e => ⟨midStore_cons ht₁ rfl, fun h => by cases h⟩
  refine keeps_bind (patchRecord_stores hj rfl) ?_ fun _ _ _ _ h => by cases h
  exact fun _ t₂ hs ht₂ _ => keeps_pure ht₂ fun _ =>
    ⟨_, hs.subset List.mem_cons_self, r, rfl⟩

/-- Releasing a slot is best effort. -/
theorem releaseSlot_keeps (ht : midStore t = none) {userId : Str}
    (hr : Releases d role t userId jobId) : Keeps d role (releaseSlot userId jobId) t anyEnd := by
  unfold releaseSlot
  split_ifs
  · exact keeps_pure ht trivial
  · exact keeps_bestEffort ht (fun _ => rfl) hr fun _ _ ht' => keeps_pure ht' trivial

theorem publish_keeps (ht : midStore t = none) (m : StreamMessage) :
    Keeps d role (issue (.publish jobId m)) t anyEnd :=
  keeps_issue ht (fun _ => rfl) trivial fun _ => trivial

/-- Storing and announcing a result, as the three ways of ending a job do. -/
theorem storeAndPublish_keeps (ht : midStore t = none) (hj : HandlesJob d role jobId)
    (cfg : WorkerConfig) (r : ExecutionResult) :
    Keeps d role (storeTerminal cfg jobId r >>= fun _ => publishDone jobId r) t
      fun out t' => out = .ok () → StoredIn t' jobId := by
  refine keeps_bind (storeTerminal_keeps ht hj cfg r) ?_ fun _ _ _ _ h => by cases h
  intro _ t₁ _ ht₁ hst
  refine (publish_keeps ht₁ _).mono fun _ t₂ hs _ _ => ?_
  exact (hst rfl).mono hs

theorem finalizeFailed_keeps (ht : midStore t = none) (hj : HandlesJob d role jobId)
    (cfg : WorkerConfig) (e : Exc) :
    Keeps d role (finalizeFailed cfg jobId e) t fun out t' => out = .ok () → StoredIn t' jobId :=
  storeAndPublish_keeps ht hj cfg (failedResult jobId e)

theorem finalizeCancelled_keeps (ht : midStore t = none) (hj : HandlesJob d role jobId)
    (cfg : WorkerConfig) :
    Keeps d role (finalizeCancelled cfg jobId) t fun out t' => out = .ok () → StoredIn t' jobId :=
  storeAndPublish_keeps ht hj cfg (cancelledResult jobId)

/-- `_run_job`, once the cancellation flag was seen absent. -/
theorem runJob_keeps (ht : midStore t = none) (hj : HandlesJob d role jobId) (cfg : WorkerConfig)
    (request : ExecutionRequest) (hc : ⟨.existsCancel jobId, .ok false⟩ ∈ t) :
    Keeps d role (runJob cfg jobId request) t fun out t' => out = .ok () → StoredIn t' jobId := by
  have herr : ∀ (e : Exc) (t' : Trace),
      (Except.error e : Except Exc Unit) = .ok () → StoredIn t' jobId := fun e t' h => by cases h
  refine keeps_bind (M := anyEnd) (keeps_issue ht (fun _ => rfl) trivial fun _ => trivial) ?_
    fun e t' _ _ => herr e t'
  intro _ t₁ hs₁ ht₁ _
  refine keeps_bind (setRunning_keeps ht₁ hj _) ?_ fun e t' _ _ => herr e t'
  intro _ t₂ hs₂ ht₂ _
  refine keeps_bind (publish_keeps ht₂ _) ?_ fun e t' _ _ => herr e t'
  intro _ t₃ hs₃ ht₃ _
  have hc₃ : ⟨.existsCancel jobId, .ok false⟩ ∈ t₃ := hs₃.subset (hs₂.subset (hs₁.subset hc))
  refine keeps_bind (M := anyEnd) (keeps_issue ht₃ (fun _ => rfl) ⟨hj, hc₃⟩ fun _ => trivial) ?_
    fun e t' _ _ => herr e t'
  intro execution t₄ _ ht₄ _
  refine keeps_bind (M := anyEnd) (keeps_ofExcept ht₄ trivial) ?_ fun e t' _ _ => herr e t'
  intro _ t₅ _ ht₅ _
  refine keeps_bind (M := anyEnd) (keeps_issue ht₅ (fun _ => rfl) trivial fun _ => trivial) ?_
    fun e t' _ _ => herr e t'
  intro _ t₆ _ ht₆ _
  refine keeps_bind (M := anyEnd) (keeps_ofExcept ht₆ trivial) ?_ fun e t' _ _ => herr e t'
  exact fun r t₇ _ ht₇ _ => storeAndPublish_keeps ht₇ hj cfg r

/-! ### Processing one job -/

section Process

variable {w : Str} {m : QueueMessage}

theorem handlesJob_delivery (hm : jobIdOf d.py m.payload = .ok jobId) :
    HandlesJob d (.delivery w m) jobId := ⟨w, m, rfl, hm⟩

theorem ack_keeps (ht : midStore t = none) (hm : jobIdOf d.py m.payload = .ok jobId)
    (hst : jobId = [] ∨ StoredIn t jobId) :
    Keeps d (.delivery w m) (ack m.msgId) t anyEnd := by
  refine keeps_bind (M := anyEnd) (keeps_issue ht (fun _ => rfl) ⟨w, m, jobId, rfl, rfl, hm, hst⟩
    fun _ => trivial) ?_ fun _ _ _ _ => trivial
  intro _ t₁ hs ht₁ _
  exact keeps_issue ht₁ (fun _ => rfl)
    ⟨w, m, jobId, rfl, rfl, hm, hst.imp_right fun h => h.mono hs⟩ fun _ => trivial

theorem deadLetter_keeps (ht : midStore t = none) (hm : jobIdOf d.py m.payload = .ok jobId)
    (hst : jobId = [] ∨ StoredIn t jobId) (reason : Str) :
    Keeps d (.delivery w m) (deadLetter m reason) t anyEnd := by
  refine keeps_bind (M := anyEnd) (keeps_issue ht (fun _ => rfl) trivial fun _ => trivial) ?_
    fun _ _ _ _ => trivial
  exact fun _ t₁ hs ht₁ _ => ack_keeps ht₁ hm (hst.imp_right fun h => h.mono hs)

/-- The end of every branch: release the slot, then acknowledge or dead-letter the entry. -/
theorem releaseThen_keeps (ht : midStore t = none) (hm : jobIdOf d.py m.payload = .ok jobId)
    (hst : jobId = [] ∨ StoredIn t jobId) (userId : Str) {p : Prog Unit}
    (hp : ∀ t', midStore t' = none → (jobId = [] ∨ StoredIn t' jobId) →
      Keeps d (.delivery w m) p t' anyEnd) :
    Keeps d (.delivery w m) (releaseSlot userId jobId >>= fun _ => p) t anyEnd := by
  have hrel : Releases d (.delivery w m) t userId jobId := ⟨hm, hst⟩
  refine keeps_bind (releaseSlot_keeps ht hrel) ?_ fun _ _ _ _ => trivial
  exact fun _ t₁ hs ht₁ _ => hp t₁ ht₁ (hst.imp_right fun h => h.mono hs)

theorem onFailure_keeps (ht : midStore t = none) (hm : jobIdOf d.py m.payload = .ok jobId)
    (cfg : WorkerConfig) (userId : Str) (e : Exc) :
    Keeps d (.delivery w m) (onFailure cfg userId jobId m.msgId e) t anyEnd := by
  unfold onFailure
  split_ifs
  · exact keeps_pure ht trivial
  · refine keeps_bind (finalizeFailed_keeps ht (handlesJob_delivery hm) cfg e) ?_
      fun _ _ _ _ => trivial
    exact fun _ t₁ _ ht₁ hst => releaseThen_keeps ht₁ hm (.inr (hst rfl)) userId
      fun t₂ ht₂ hst₂ => ack_keeps ht₂ hm hst₂

theorem processRequest_keeps (ht : midStore t = none) (hm : jobIdOf d.py m.payload = .ok jobId)
    (cfg : WorkerConfig) (userId : Str) (request : ExecutionRequest) :
    Keeps d (.delivery w m) (processRequest cfg userId jobId request m.msgId) t anyEnd := by
  have hj : HandlesJob d (.delivery w m) jobId := handlesJob_delivery hm
  refine keeps_bind (M := fun r t' => ⟨.existsCancel jobId, r⟩ ∈ t')
    (keeps_issue ht (fun _ => rfl) hj fun _ => List.mem_cons_self) ?_ fun _ _ _ _ => trivial
  intro cancelled t₁ _ ht₁ hmem
  cases cancelled with
  | true =>
    refine keeps_bind (finalizeCancelled_keeps ht₁ hj cfg) ?_ fun _ _ _ _ => trivial
    exact fun _ t₂ _ ht₂ hst => releaseThen_keeps ht₂ hm (.inr (hst rfl)) userId
      fun t₃ ht₃ hst₃ => ack_keeps ht₃ hm hst₃
  | false =>
    refine keeps_tryCatch (M := anyEnd) ?_ (fun _ _ _ _ => trivial) fun e t₂ _ ht₂ _ =>
      onFailure_keeps ht₂ hm cfg userId e
    refine keeps_bind (runJob_keeps ht₁ hj cfg request hmem) ?_ fun _ _ _ _ => trivial
    exact fun _ t₂ _ ht₂ hst => releaseThen_keeps ht₂ hm (.inr (hst rfl)) userId
      fun t₃ ht₃ hst₃ => ack_keeps ht₃ hm hst₃

theorem processExhausted_keeps (ht : midStore t = none) (hm : jobIdOf d.py m.payload = .ok jobId)
    (cfg : WorkerConfig) (userId : Str) :
    Keeps d (.delivery w m) (processExhausted cfg userId jobId m) t anyEnd := by
  refine keeps_bind (finalizeFailed_keeps ht (handlesJob_delivery hm) cfg _) ?_
    fun _ _ _ _ => trivial
  exact fun _ t₁ _ ht₁ hst => releaseThen_keeps ht₁ hm (.inr (hst rfl)) userId
    fun t₂ ht₂ hst₂ => deadLetter_keeps ht₂ hm hst₂ _

/-- A payload without a job id stores nothing: there is no job to lose. -/
theorem processMalformed_keeps (ht : midStore t = none) (hm : jobIdOf d.py m.payload = .ok jobId)
    (cfg : WorkerConfig) (userId : Str) :
    Keeps d (.delivery w m) (processMalformed cfg userId jobId m) t anyEnd := by
  have hend : ∀ t', midStore t' = none → (jobId = [] ∨ StoredIn t' jobId) →
      Keeps d (.delivery w m) (releaseSlot userId jobId >>= fun _ =>
        deadLetter m (str "malformed_payload")) t' anyEnd := fun t' ht' hst =>
    releaseThen_keeps ht' hm hst userId fun t₂ ht₂ hst₂ => deadLetter_keeps ht₂ hm hst₂ _
  dsimp only [processMalformed]
  split_ifs with hnil
  · exact hend t ht (.inl hnil)
  · refine keeps_bind (finalizeFailed_keeps ht (handlesJob_delivery hm) cfg _) ?_
      fun _ _ _ _ => trivial
    exact fun _ t₁ _ ht₁ hst => hend t₁ ht₁ (.inr (hst rfl))

/-- **Every branch of `_process` keeps the discipline.** -/
theorem process_keeps (ht : midStore t = none) (cfg : WorkerConfig) :
    Keeps d (.delivery w m) (process d.py cfg m) t anyEnd := by
  refine keeps_bind (M := fun out _ => jobIdOf d.py m.payload = out) (keeps_ofExcept ht rfl) ?_
    fun _ _ _ _ => trivial
  intro jobId t₁ _ ht₁ hm
  refine keeps_bind (M := anyEnd) (keeps_ofExcept ht₁ trivial) ?_ fun _ _ _ _ => trivial
  intro userId t₂ _ ht₂ _
  split_ifs
  · exact processExhausted_keeps ht₂ hm cfg userId
  · cases requestOf d.py m.payload with
    | ok request => exact processRequest_keeps ht₂ hm cfg userId request
    | error e =>
      dsimp only
      split_ifs
      · exact processMalformed_keeps ht₂ hm cfg userId
      · exact keeps_throw ht₂ trivial

end Process

/-! ### The consume loop -/

section Consume

variable {w : Str}

theorem ensureGroup_keeps (ht : midStore t = none) (ready : Bool) :
    Keeps d role (ensureGroup ready) t anyEnd := by
  unfold ensureGroup
  split_ifs
  · exact keeps_pure ht trivial
  · exact keeps_bind (M := anyEnd) (keeps_issue ht (fun _ => rfl) trivial fun _ => trivial)
      (fun _ _ _ ht' _ => keeps_pure ht' trivial) fun _ _ _ _ => trivial

/-- The messages of a program that fetches entries were all fetched. -/
def AllFetched (out : Except Exc (List QueueMessage)) (t : Trace) : Prop :=
  ∀ ms, out = .ok ms → ∀ m ∈ ms, Fetched t m

theorem allFetched_error (e : Exc) (t : Trace) : AllFetched (.error e) t := fun _ h => by cases h

theorem read_keeps (ht : midStore t = none) (ready : Bool) (consumer : Str) (count : ℕ) :
    Keeps d (.consumer w) (read ready consumer count) t AllFetched := by
  refine keeps_bind (ensureGroup_keeps ht ready) ?_ fun e t' _ _ => allFetched_error e t'
  intro _ t₁ _ ht₁ _
  refine keeps_bind (M := fun r t' => ⟨.xreadgroup consumer count, r⟩ ∈ t')
    (keeps_issue ht₁ (fun _ => rfl) ⟨w, rfl⟩ fun _ => List.mem_cons_self) ?_
    fun e t' _ _ => allFetched_error e t'
  intro entries t₂ _ ht₂ hmem
  refine keeps_pure ht₂ ?_
  rintro _ ⟨rfl⟩ m hm
  obtain ⟨x, hx, rfl⟩ := List.mem_map.mp hm
  exact .inl ⟨_, hmem, x, hx, rfl⟩

/-- The loop over the shown pending entries: each claimed message carries the shown count. -/
theorem claimEach_keeps (consumer : Str) (minIdle : ℕ) (shown : List (ℕ × ℕ)) :
    ∀ (claimed : List QueueMessage) {t : Trace}, midStore t = none →
      (∀ x ∈ shown, ∃ e ∈ t, x ∈ shownBy e) → (∀ m ∈ claimed, Fetched t m) →
      Keeps d (.consumer w) (claimEach consumer minIdle shown claimed) t AllFetched := by
  induction shown with
  | nil =>
    intro claimed t ht _ hcl
    refine keeps_pure ht ?_
    rintro _ ⟨rfl⟩
    exact hcl
  | cons x shown ih =>
    obtain ⟨msgId, n⟩ := x
    intro claimed t ht hshown hcl
    refine keeps_bind
      (M := fun r t' => ⟨.xclaim consumer minIdle msgId, r⟩ :: t = t')
      (keeps_issue ht (fun _ => rfl) ⟨w, rfl⟩ fun _ => rfl) ?_
      fun e t' _ _ => allFetched_error e t'
    rintro result t₁ hs ht₁ rfl
    refine ih _ ht₁ (fun x hx => ?_) fun m hm => ?_
    · obtain ⟨e, he, hxe⟩ := hshown x (List.mem_cons_of_mem _ hx)
      exact ⟨e, hs.subset he, hxe⟩
    · rcases List.mem_append.mp hm with hm | hm
      · exact (hcl m hm).mono hs
      · obtain ⟨x, hx, rfl⟩ := List.mem_map.mp hm
        obtain ⟨e, he, hxe⟩ := hshown (msgId, n) List.mem_cons_self
        exact .inr ⟨_, t, List.suffix_rfl, (msgId, x), List.mem_map_of_mem hx, e, he, n, hxe, rfl⟩

theorem claimStale_keeps (ht : midStore t = none) (ready : Bool) (consumer : Str)
    (minIdle count : ℕ) :
    Keeps d (.consumer w) (claimStale ready consumer minIdle count) t AllFetched := by
  refine keeps_bind (ensureGroup_keeps ht ready) ?_ fun e t' _ _ => allFetched_error e t'
  intro _ t₁ _ ht₁ _
  refine keeps_bind (M := fun r t' => ⟨.xpendingRange count minIdle, r⟩ ∈ t')
    (keeps_issue ht₁ (fun _ => rfl) ⟨w, rfl⟩ fun _ => List.mem_cons_self) ?_
    fun e t' _ _ => allFetched_error e t'
  exact fun shown t₂ _ ht₂ hmem => claimEach_keeps consumer minIdle shown [] ht₂
    (fun x hx => ⟨_, hmem, hx⟩) fun m hm => absurd hm List.not_mem_nil

theorem dispatch_keeps (ms : List QueueMessage) :
    ∀ {t : Trace}, midStore t = none → (∀ m ∈ ms, Fetched t m) →
      Keeps d (.consumer w) (dispatch ms) t anyEnd := by
  induction ms with
  | nil => exact fun ht _ => keeps_pure ht trivial
  | cons m ms ih =>
    intro t ht hms
    refine keeps_bind (M := anyEnd) (keeps_issue ht (fun _ => rfl)
      ⟨⟨w, rfl⟩, hms m List.mem_cons_self⟩ fun _ => trivial) ?_ fun _ _ _ _ => trivial
    exact fun _ t₁ hs ht₁ _ => ih ht₁ fun m' hm' => (hms m' (List.mem_cons_of_mem _ hm')).mono hs

/-- **The consume loop keeps the discipline.** -/
theorem consume_keeps (ht : midStore t = none) (cfg : WorkerConfig) (ready : Bool) (batch : ℕ)
    (again : Option ℕ) : Keeps d (.consumer w) (consume cfg ready batch again) t anyEnd := by
  have hdepth : Keeps d (.consumer w) queueDepth t anyEnd := by
    refine keeps_tryCatch (M := anyEnd) (keeps_issue ht (fun _ => rfl) trivial fun _ => trivial)
      (fun _ _ _ _ => trivial) fun e t₁ _ ht₁ _ => ?_
    split_ifs
    · exact keeps_pure ht₁ trivial
    · exact keeps_throw ht₁ trivial
  refine keeps_bind hdepth ?_ fun _ _ _ _ => trivial
  intro _ t₁ _ ht₁ _
  refine keeps_bind (claimStale_keeps ht₁ ready _ _ batch) ?_ fun _ _ _ _ => trivial
  intro stale t₂ _ ht₂ hstale
  refine keeps_bind (dispatch_keeps stale ht₂ (hstale stale rfl)) ?_ fun _ _ _ _ => trivial
  intro _ t₃ _ ht₃ _
  cases again with
  | none => exact keeps_pure ht₃ trivial
  | some count =>
    refine keeps_bind (read_keeps ht₃ true _ count) ?_ fun _ _ _ _ => trivial
    exact fun new t₄ _ ht₄ hnew => dispatch_keeps new ht₄ (hnew new rfl)

end Consume

end CodeInterpreter.Worker
