import CodeInterpreter.Queue.NoLostJob
import Mathlib.Data.List.Perm.Subperm

/-!
# The concurrency quota

A submission takes a slot of its user before it is enqueued, and a user has at most as many slots
as the tier allows. The worker gives the slot back after it stored a result. The API gives slots
back too, at the end of the synchronous window, when a WebSocket connection ends and on `DELETE`,
whether or not the job has ended: while it has not, the user can have more unfinished jobs than
slots.

## Main definitions

* `Unfinished`: a job of the user that was enqueued and has no result.
* `QuotaDomain`: no Redis call fails, no slot reaches its TTL, the user's tier is fixed.
* `ReleasesFinished`: the API releases slots of jobs with a result only.

## Main results

* `SlotsOk.exec`: what each command does to the slots of a user.
* `quota_bounds_unfinished`: with such releases only, the quota bounds the unfinished jobs.
* `quota_exceeded`: without that condition it does not.
-/

namespace CodeInterpreter

open Async

variable {d : Deployment} {u : Str} {tier : UserTier}

/-- The user has enqueued the job, and no result of it has been written. -/
def Unfinished (hist : History) (u j : Str) : Prop :=
  (∃ p, Enqueued hist p ∧ p.jobId = j ∧ p.userId = u) ∧ ¬ Written hist j

/-- The runs that the quota is about: no Redis call fails, no slot of the user reaches its TTL, and
all submissions of the user are of one tier. -/
structure QuotaDomain (d : Deployment) (u : Str) (tier : UserTier) (s : Sys) (a : Act) : Prop where
  succeeds : ∀ i ans, a = .answer i ans → ∃ o, ans = .reply o
  fresh : ∀ m ∈ (s.world.slots u).members, s.now < m.2 + Api.slotTtlMs d.app
  tier : ∀ p c sub, s.next a = some (p, c) → submissionOf d p.role = some sub →
    sub.principal.userId = u → sub.principal.tier = tier

/-- If the step releases a slot of the user on behalf of the API, the job has a result. -/
def ReleasesFinished (u : Str) (s : Sys) (a : Act) : Prop :=
  ∀ p j, s.next a = some (p, .zrem u j) → (∀ w m, p.role ≠ .delivery w m) → Written s.hist j

/-! ### The slots of a user -/

/-- At most `limit` slots, taken in the past, in a set that outlives each of them. -/
structure SlotsOk (z : SlotSet) (now ttlMs limit : ℕ) : Prop where
  bound : z.members.length ≤ limit
  past : ∀ m ∈ z.members, m.2 ≤ now
  outlives : ∀ t ∈ z.expiry, ∀ m ∈ z.members, m.2 + ttlMs ≤ t

variable {z : SlotSet} {now ttlMs limit : ℕ}

/-- As long as no slot reaches its TTL the set has not expired. -/
theorem SlotsOk.current (h : SlotsOk z now ttlMs limit)
    (hfresh : ∀ m ∈ z.members, now < m.2 + ttlMs) : z.current now = z.members := by
  unfold SlotSet.current
  split_ifs with hlive
  · rfl
  · cases hmem : z.members with
    | nil => rfl
    | cons m ms =>
      have hm : m ∈ z.members := hmem ▸ List.mem_cons_self
      refine absurd (fun t ht => ?_) hlive
      have h₁ := h.outlives t ht m hm
      have h₂ := hfresh m hm
      omega

/-- Then no member is dropped by the script. -/
theorem SlotsOk.kept (h : SlotsOk z now ttlMs limit)
    (hfresh : ∀ m ∈ z.members, now < m.2 + ttlMs) :
    (z.current now).filter (fun m => now < m.2 + ttlMs) = z.members := by
  rw [h.current hfresh]
  exact List.filter_eq_self.mpr fun m hm => decide_eq_true (hfresh m hm)

/-- A granted slot is a member, and the other members stay. -/
theorem SlotsOk.acquire (h : SlotsOk z now ttlMs limit)
    (hfresh : ∀ m ∈ z.members, now < m.2 + ttlMs) (member : Str) :
    SlotsOk (z.acquire now member ttlMs limit).1 now ttlMs limit ∧
    (∀ m ∈ z.members, ∃ m' ∈ (z.acquire now member ttlMs limit).1.members, m'.1 = m.1) ∧
    ((z.acquire now member ttlMs limit).2 = true →
      ∃ m ∈ (z.acquire now member ttlMs limit).1.members, m.1 = member) := by
  simp only [SlotSet.acquire, h.kept hfresh]
  split_ifs with hlt
  · have hlen := List.length_filter_le (fun m => decide (m.1 ≠ member)) z.members
    refine ⟨⟨?_, fun m hm => ?_, fun t ht m hm => ?_⟩, fun m hm => ?_, fun _ => ?_⟩
    · simp only [List.length_cons]
      omega
    · rcases List.mem_cons.mp hm with rfl | hm
      · exact le_rfl
      · exact h.past m (List.mem_of_mem_filter hm)
    · obtain rfl : now + ttlMs = t := Option.some.inj ht
      rcases List.mem_cons.mp hm with rfl | hm
      · exact le_rfl
      · have := h.past m (List.mem_of_mem_filter hm)
        omega
    · by_cases hid : m.1 = member
      · exact ⟨_, List.mem_cons_self, hid.symm⟩
      · exact ⟨m, List.mem_cons_of_mem _ (List.mem_filter.mpr ⟨hm, decide_eq_true hid⟩), rfl⟩
    · exact ⟨_, List.mem_cons_self, rfl⟩
  · exact ⟨⟨h.bound, h.past, h.outlives⟩, fun m hm => ⟨m, hm, rfl⟩, fun hfalse => by cases hfalse⟩

/-- A release removes the slots of one job. -/
theorem SlotsOk.zrem (h : SlotsOk z now ttlMs limit)
    (hfresh : ∀ m ∈ z.members, now < m.2 + ttlMs) (member : Str) :
    SlotsOk (z.zrem now member) now ttlMs limit ∧
    ∀ m ∈ z.members, m.1 ≠ member → m ∈ (z.zrem now member).members := by
  simp only [SlotSet.zrem, h.current hfresh]
  refine ⟨⟨(List.length_filter_le _ _).trans h.bound, fun m hm => ?_, fun t ht m hm => ?_⟩,
    fun m hm hid => List.mem_filter.mpr ⟨hm, decide_eq_true hid⟩⟩
  · exact h.past m (List.mem_of_mem_filter hm)
  · exact h.outlives t ht m (List.mem_of_mem_filter hm)

theorem SlotsOk.later (h : SlotsOk z now ttlMs limit) {now' : ℕ} (hle : now ≤ now') :
    SlotsOk z now' ttlMs limit :=
  ⟨h.bound, fun m hm => (h.past m hm).trans hle, h.outlives⟩

/-! ### The invariant -/

/-- The slots of the user are in order, and a job that was granted one has a result or still holds
it. -/
structure QuotaOk (d : Deployment) (u : Str) (tier : UserTier) (s : Sys) : Prop where
  slots : SlotsOk (s.world.slots u) s.now (Api.slotTtlMs d.app)
    (Api.concurrencyLimitForTier d.app tier)
  granted : ∀ o ∈ s.hist, ∀ j l t, ∀ a : Except Exc Bool, o.event = ⟨.acquire u j l t, a⟩ →
    a ≠ .ok false → Written s.hist j ∨ ∃ m ∈ (s.world.slots u).members, m.1 = j

/-- A worker releases the slot of a job after it wrote a result. -/
theorem written_of_releases {s : Sys} (h : (system d).Reachable s)
    {p : Process Cmd Reply Exc Role} (hp : p ∈ s.procs) {wid : Str} {m : QueueMessage}
    (hrole : p.role = .delivery wid m) {j : Str} (hrel : Releases d p.role p.trace u j) :
    Written s.hist j := by
  have horigin := (System.reachable_originates h).1 p hp
  obtain ⟨hid, hdone⟩ : Worker.jobIdOf d.py m.payload = .ok j ∧ (j = [] ∨ StoredIn p.trace j) := by
    rw [hrole] at hrel
    exact hrel
  rcases hdone with rfl | hst
  · obtain ⟨payload, henq, hnil⟩ := handled_enqueued h horigin ⟨wid, m, hrole, hid⟩
    exact absurd hnil (ne_nil_of_isUlid (enqueued_ulid h henq))
  · exact written_of_storedIn h hp hst

/-- A release of a slot of the user comes after a result of the job was written. -/
theorem written_of_zrem {s : Sys} (h : (system d).Reachable s) {a : Act}
    (hfin : ReleasesFinished u s a) {p : Process Cmd Reply Exc Role} (hp : p ∈ s.procs) {j : Str}
    (hnext : s.next a = some (p, .zrem u j)) (hperm : Permits d p.role p.trace (.zrem u j)) :
    Written s.hist j := by
  by_cases hrole : ∃ wid m, p.role = .delivery wid m
  · obtain ⟨wid, m, hrole⟩ := hrole
    exact written_of_releases h hp hrole hperm
  · exact hfin p j hnext fun wid m heq => hrole ⟨wid, m, heq⟩

section Answer

variable {s : Sys} {p : Process Cmd Reply Exc Role}

/-- The limit and the lifetime that a submission of the user asks with. -/
theorem acquire_settings {a : Act} (hdom : QuotaDomain d u tier s a) {j : Str} {l t : ℕ}
    (hnext : s.next a = some (p, .acquire u j l t))
    (hperm : Permits d p.role p.trace (.acquire u j l t)) :
    l = Api.concurrencyLimitForTier d.app tier ∧ t = Api.slotTtlMs d.app := by
  obtain ⟨sub, hsub, hcmd⟩ := hperm
  obtain ⟨huser, -, hlimit, httl⟩ := Cmd.acquire.inj hcmd
  rw [hdom.tier p _ sub hnext hsub huser.symm] at hlimit
  exact ⟨hlimit, httl⟩

/-- A command keeps the slots in order, and only a finished job loses its slot. -/
theorem slots_exec (h : (system d).Reachable s) (hok : QuotaOk d u tier s) {a : Act}
    (hdom : QuotaDomain d u tier s a) (hfin : ReleasesFinished u s a) (hp : p ∈ s.procs) {c : Cmd}
    (hnext : s.next a = some (p, c)) (hperm : Permits d p.role p.trace c) (o : Oracle) :
    SlotsOk ((World.exec s.now s.world c o).1.slots u) s.now (Api.slotTtlMs d.app)
      (Api.concurrencyLimitForTier d.app tier) ∧
    ∀ m ∈ (s.world.slots u).members, Written s.hist m.1 ∨
      ∃ m' ∈ ((World.exec s.now s.world c o).1.slots u).members, m'.1 = m.1 := by
  cases @exec_slots s.now s.world c o with
  | acquire u' j l t hw =>
    rw [hw]
    by_cases hu : u' = u
    · subst hu
      obtain ⟨rfl, rfl⟩ := acquire_settings hdom hnext hperm
      rw [Function.update_self]
      obtain ⟨hok', hkept, -⟩ := hok.slots.acquire hdom.fresh j
      exact ⟨hok', fun m hm => .inr (hkept m hm)⟩
    · rw [Function.update_of_ne (Ne.symm hu)]
      exact ⟨hok.slots, fun m hm => .inr ⟨m, hm, rfl⟩⟩
  | zrem u' j hw =>
    rw [hw]
    by_cases hu : u' = u
    · subst hu
      rw [Function.update_self]
      obtain ⟨hok', hkept⟩ := hok.slots.zrem hdom.fresh j
      refine ⟨hok', fun m hm => ?_⟩
      by_cases hj : m.1 = j
      · exact .inl (hj ▸ written_of_zrem h hfin hp hnext hperm)
      · exact .inr ⟨m, hkept m hm hj, rfl⟩
    · rw [Function.update_of_ne (Ne.symm hu)]
      exact ⟨hok.slots, fun m hm => .inr ⟨m, hm, rfl⟩⟩
  | other ha hz hw =>
    rw [hw]
    exact ⟨hok.slots, fun m hm => .inr ⟨m, hm, rfl⟩⟩

/-- A granted slot is held. -/
theorem slots_granted (hok : QuotaOk d u tier s) {a : Act} (hdom : QuotaDomain d u tier s a)
    {j : Str} {l t : ℕ} (hnext : s.next a = some (p, .acquire u j l t))
    (hperm : Permits d p.role p.trace (.acquire u j l t)) (o : Oracle)
    (hx : (Except.ok (World.exec s.now s.world (.acquire u j l t) o).2 : Except Exc Bool) ≠
      .ok false) :
    ∃ m ∈ ((World.exec s.now s.world (.acquire u j l t) o).1.slots u).members, m.1 = j := by
  obtain ⟨rfl, rfl⟩ := acquire_settings hdom hnext hperm
  obtain ⟨-, -, hgranted⟩ := hok.slots.acquire hdom.fresh j
  have htrue : ((s.world.slots u).acquire s.now j (Api.slotTtlMs d.app)
      (Api.concurrencyLimitForTier d.app tier)).2 = true := by
    refine Bool.eq_true_of_not_eq_false fun hfalse => hx ?_
    exact congrArg Except.ok hfalse
  obtain ⟨m, hm, hj⟩ := hgranted htrue
  refine ⟨m, ?_, hj⟩
  change m ∈ (Function.update s.world.slots u _ u).members
  rw [Function.update_self]
  exact hm

/-- One answered command keeps the invariant. -/
theorem quotaOk_answer (h : (system d).Reachable s) (hok : QuotaOk d u tier s) {i : ℕ}
    {o : Oracle} (hdom : QuotaDomain d u tier s (.answer i (.reply o)))
    (hfin : ReleasesFinished u s (.answer i (.reply o))) {c : Cmd}
    {k : Except Exc (Reply c) → Prog Unit} (hi : s.procs[i]? = some p) (hp : p.prog = .call c k) :
    QuotaOk d u tier ((system d).after s i p c k (World.exec s.now s.world c o).1
      (.ok (World.exec s.now s.world c o).2) true) := by
  have hmem : p ∈ s.procs := List.mem_of_getElem? hi
  have hperm := (reachable_allows h hmem hp).2
  have hnext : s.next (.answer i (.reply o) : Act) = some (p, c) := by
    simp only [State.next, hi, Option.bind_some, Process.next_eq_some.mpr ⟨k, hp⟩,
      Option.map_some]
  obtain ⟨hslots, hkept⟩ := slots_exec h hok hdom hfin hmem hnext hperm o
  refine ⟨hslots, fun o' ho' j l t x heq hx => ?_⟩
  rcases List.mem_cons.mp ho' with rfl | ho'
  · cases heq
    exact .inr (slots_granted hok hdom hnext hperm o hx)
  · rcases hok.granted o' ho' j l t x heq hx with hw | ⟨m, hm, rfl⟩
    · exact .inl (hw.cons _)
    · exact (hkept m hm).imp_left fun hw => hw.cons _

end Answer

theorem quotaOk_run {s : Sys} (hrun : (system d).Run
      (fun s a => QuotaDomain d u tier s a ∧ ReleasesFinished u s a) (system d).start s) :
    QuotaOk d u tier s := by
  have hinit : QuotaOk d u tier (system d).start := by
    refine ⟨⟨Nat.zero_le _, fun m hm => absurd hm List.not_mem_nil, fun t ht => ?_⟩,
      fun o ho => absurd ho List.not_mem_nil⟩
    cases ht
  refine System.Run.invariant_reachable hrun .refl ?_ hinit
  rintro t a t' ht hok ⟨hdom, hfin⟩ hst
  cases System.step_cases hst with
  | arrive q hq => exact ⟨hok.slots, hok.granted⟩
  | answer i ans p c k w r b hi hp hr =>
    obtain ⟨o, rfl⟩ := hdom.succeeds i ans rfl
    cases hr
    exact quotaOk_answer ht hok hdom hfin hi hp
  | crash i hi => exact ⟨hok.slots, hok.granted⟩
  | tick n => exact ⟨hok.slots.later (Nat.le_add_right _ _), hok.granted⟩

/-- An enqueued job had asked for a slot and was not refused. -/
theorem enqueued_granted {s : Sys} (h : (system d).Reachable s) {p : JobPayload}
    (hp : Enqueued s.hist p) : ∃ o ∈ s.hist, ∃ l t, ∃ a : Except Exc Bool,
      o.event = ⟨.acquire p.userId p.jobId l t, a⟩ ∧ a ≠ .ok false := by
  obtain ⟨o, ho, -, r, hcmd⟩ := hp
  obtain ⟨t, hperm, htraced⟩ := permitted_of_mem h ho
  rw [hcmd] at hperm
  obtain ⟨sub, -, rfl, -, -, a, ha, hmem⟩ := hperm
  obtain ⟨o', ho', -, heq, -⟩ := htraced.mem hmem
  exact ⟨o', ho', _, _, a, heq, ha⟩

/-- **The concurrency quota bounds the unfinished jobs**, as long as the API releases a slot only
when the job has a result: the jobs that a user has enqueued and that have no result are at most
as many as the tier allows. -/
theorem quota_bounds_unfinished {s : Sys} (hrun : (system d).Run
      (fun s a => QuotaDomain d u tier s a ∧ ReleasesFinished u s a) (system d).start s)
    {jobs : List Str} (hnodup : jobs.Nodup) (hjobs : ∀ j ∈ jobs, Unfinished s.hist u j) :
    jobs.length ≤ Api.concurrencyLimitForTier d.app tier := by
  have hreach : (system d).Reachable s := hrun.mono fun _ _ _ => trivial
  have hok := quotaOk_run hrun
  have hsub : jobs ⊆ ((s.world.slots u).members.map Prod.fst) := by
    intro j hj
    obtain ⟨⟨p, hp, rfl, rfl⟩, hw⟩ := hjobs j hj
    obtain ⟨o, ho, l, t, a, heq, ha⟩ := enqueued_granted hreach hp
    obtain ⟨m, hm, hmj⟩ := (hok.granted o ho p.jobId l t a heq ha).resolve_left hw
    exact hmj ▸ List.mem_map_of_mem hm
  calc jobs.length ≤ ((s.world.slots u).members.map Prod.fst).length :=
        (List.subperm_of_subset hnodup hsub).length_le
    _ = (s.world.slots u).members.length := List.length_map _
    _ ≤ _ := hok.slots.bound

/-! ### Runs of sample jobs -/

/-- The test for `QuotaDomain`. -/
def quotaDomain (d : Deployment) (u : Str) (tier : UserTier) (s : Sys) (a : Act) : Bool :=
  (match a with
    | .answer _ (.reply _) => true
    | .answer _ _ => false
    | _ => true) &&
  ((s.world.slots u).members.all fun m => s.now < m.2 + Api.slotTtlMs d.app) &&
  ((s.next a).bind fun x => submissionOf d x.1.role).all fun sub =>
    sub.principal.userId != u || sub.principal.tier == tier

theorem quotaDomain_sound {s : Sys} {a : Act} (h : quotaDomain d u tier s a = true) :
    QuotaDomain d u tier s a := by
  simp only [quotaDomain, Bool.and_eq_true, List.all_eq_true, decide_eq_true_eq] at h
  obtain ⟨⟨hreply, hfresh⟩, htier⟩ := h
  refine ⟨fun i ans ha => ?_, hfresh, fun p c sub hnext hsub huser => ?_⟩
  · subst ha
    cases ans with
    | reply o => exact ⟨o, rfl⟩
    | lost e => cases hreply
    | unheard e o => cases hreply
  · simpa [hnext, hsub, huser] using htier

/-- The test for `ReleasesFinished`. -/
def releasesFinished (u : Str) (s : Sys) (a : Act) : Bool :=
  match s.next a with
  | some (p, .zrem u' j) => p.role.isDelivery || u' != u || decide (Written s.hist j)
  | _ => true

theorem releasesFinished_sound {s : Sys} {a : Act} (h : releasesFinished u s a = true) :
    ReleasesFinished u s a := by
  intro p j hnext hrole
  have hno : p.role.isDelivery = false := by
    cases hp : p.role with
    | delivery w m => exact absurd hp (hrole w m)
    | _ => rfl
  simpa [releasesFinished, hnext, hno] using h

/-- The id of the second sample job. -/
def secondId : Str := str "01ARZ3NDEKTSV4RRFFQ69G5FA0"

/-- The sample job is submitted synchronously and completes within the window; then a second job is
submitted. -/
def completedInWindow : List Act :=
  [.arrive (.postExecute (sampleSubmission sampleId) 0), ok 0, ok 0] ++ completeSample ++
  [ok 0, ok 0, ok 0, .arrive (.postExecuteAsync (sampleSubmission secondId)), ok 3, ok 3]

/-- After that run the second job is the only unfinished one. -/
theorem quota_bounds_unfinished_sample :
    ∃ s : Sys, (system .default).Run (fun s a =>
        QuotaDomain .default anna.userId .authenticated s a ∧ ReleasesFinished anna.userId s a)
        (system .default).start s ∧
      Written s.hist sampleId ∧ Unfinished s.hist anna.userId secondId ∧ [secondId].length ≤ 5 := by
  have hrun : (system .default).Run (fun s a =>
      QuotaDomain .default anna.userId .authenticated s a ∧ ReleasesFinished anna.userId s a)
      (system .default).start (sampleRun completedInWindow) :=
    System.run_of_test (fun s a => quotaDomain .default anna.userId .authenticated s a &&
        releasesFinished anna.userId s a)
      (fun s a h => ⟨quotaDomain_sound (Bool.and_eq_true_iff.mp h).1,
        releasesFinished_sound (Bool.and_eq_true_iff.mp h).2⟩) completedInWindow (by decide +kernel)
  have hun : Unfinished (sampleRun completedInWindow).hist anna.userId secondId :=
    ⟨⟨(sampleSubmission secondId).payload, by decide +kernel, rfl, rfl⟩, by decide +kernel⟩
  refine ⟨_, hrun, by decide +kernel, hun, ?_⟩
  exact quota_bounds_unfinished hrun (List.nodup_singleton _) fun j hj =>
    List.mem_singleton.mp hj ▸ hun

/-- A synchronous submission whose window expires at once. -/
def expiredWindow (n : ℕ) : List Act :=
  [.arrive (.postExecute (sampleSubmission (str "01ARZ3NDEKTSV4RRFFQ69G5FA" ++ [48 + n])) 0),
    ok n, ok n, ok n, ok n]

/-- Six synchronous submissions whose windows expire before a worker picks anything up: no call
fails, no slot reaches its TTL, and six jobs are unfinished where five are allowed. -/
theorem quota_exceeded :
    ∃ s : Sys, (system .default).Run (QuotaDomain .default anna.userId .authenticated)
        (system .default).start s ∧
      ∃ jobs : List Str, jobs.Nodup ∧ (∀ j ∈ jobs, Unfinished s.hist anna.userId j) ∧
        Api.concurrencyLimitForTier Deployment.default.app .authenticated < jobs.length := by
  have hrun : (system .default).Run (QuotaDomain .default anna.userId .authenticated)
      (system .default).start (sampleRun ((List.range 6).flatMap expiredWindow)) :=
    System.run_of_test (quotaDomain .default anna.userId .authenticated)
      (fun _ _ => quotaDomain_sound) _ (by decide +kernel)
  have hjobs : ∀ n ∈ List.range 6,
      Enqueued (sampleRun ((List.range 6).flatMap expiredWindow)).hist
          (sampleSubmission (str "01ARZ3NDEKTSV4RRFFQ69G5FA" ++ [48 + n])).payload ∧
        ¬ Written (sampleRun ((List.range 6).flatMap expiredWindow)).hist
          (str "01ARZ3NDEKTSV4RRFFQ69G5FA" ++ [48 + n]) := by decide +kernel
  refine ⟨_, hrun, (List.range 6).map fun n => str "01ARZ3NDEKTSV4RRFFQ69G5FA" ++ [48 + n],
    by decide +kernel, fun j hj => ?_, by decide⟩
  obtain ⟨n, hn, rfl⟩ := List.mem_map.mp hj
  exact ⟨⟨_, (hjobs n hn).1, rfl, rfl⟩, (hjobs n hn).2⟩

end CodeInterpreter
