import CodeInterpreter.System
import CodeInterpreter.RateLimits

/-!
# Submissions that fail

`submit` takes a slot of the user and then enqueues the job. When the enqueue raises, the request is
rejected and nothing gives the slot back; the WebSocket path, which fails in the same way, releases
it. Here one request runs alone against Redis, and each of its commands meets a *fate*: it is
answered, it is lost before it reaches Redis (this is also what the open circuit breaker and an
aborted transaction look like), its answer is lost, or one of the two commands of the transaction
has an error while the other has its effect.

## Main definitions

* `Fate`, `meet`, `Env`: what can become of a command, and of each command of a request.
* `Route`: the two routes that `submit` serves.
* `NothingHeld`: the user's slots are what they were, and the job is not in the stream.

## Main results

* `acquireSlot_spec`, `enqueueJob_spec`: what the two parts of a submission leave.
* `nothing_held_iff`: exactly when a failed submission holds nothing.
-/

namespace CodeInterpreter.Api

open Async

/-! ### Requests and fates -/

/-- What becomes of a command. -/
inductive Fate
  | reply
  | lost (e : Exc)
  | unheard (e : Exc)
  | setFails (e : Exc)
  | xaddFails (e : Exc)

/-- `XADD` of a payload. -/
def xadd (w : World) (payload : JobPayload) : World :=
  { w with nextId := w.nextId + 1, stream := w.stream ++ [⟨w.nextId, payload.toValue⟩] }

/-- `SET` of the record of a new job. -/
def setNew (w : World) (now : ℕ) (payload : JobPayload) (record : JobRecord) : World :=
  { w with
    record := Function.update w.record payload.jobId (some (setEx now record recordTtlSeconds)) }

/-- The two commands of the transaction make up its effect. -/
theorem enqueue_eq (w : World) (now : ℕ) (payload : JobPayload) (record : JobRecord) :
    w.enqueue now payload record = setNew (xadd w payload) now payload record := rfl

/-- The effect of a command that meets a fate, and what the program sees of it. -/
def meet (now : ℕ) (w : World) (c : Cmd) : Fate → World × Except Exc (Reply c)
  | .reply => ((w.exec now c {}).1, .ok (w.exec now c {}).2)
  | .lost e => (w, .error e)
  | .unheard e => ((w.exec now c {}).1, .error e)
  | .setFails e =>
    match c with
    | .enqueue payload _ => (xadd w payload, .error e)
    | _ => (w, .error e)
  | .xaddFails e =>
    match c with
    | .enqueue payload record => (setNew w now payload record, .error e)
    | _ => (w, .error e)

/-- When each command is executed, and its fate. -/
structure Env where
  time : Cmd → ℕ
  fate : Cmd → Fate

/-- A command in an environment; one that cannot fail is answered. -/
def Env.act (env : Env) (w : World) (c : Cmd) : World × Except Exc (Reply c) :=
  meet (env.time c) w c (if mayFail c then env.fate c else .reply)

/-- A program in an environment. -/
def Env.run {α : Type} (env : Env) (w : World) (p : Prog α) : World × Except Exc α :=
  p.actOn env.act w

/-- The routes that `submit` serves. -/
inductive Route
  | execute (polls : ℕ)
  | executeAsync

/-- The handler of a route. -/
def Route.handler (config : AppConfig) (sub : Submission) : Route → Prog Unit
  | .execute polls => postExecute config sub polls
  | .executeAsync => postExecuteAsync config sub

/-- The entry is one of the job. -/
def OfJob (jobId : Str) (e : StreamEntry) : Prop :=
  ∃ kvs, e.payload = .dict kvs ∧ lookup (str "job_id") kvs = some (.str jobId)

/-- At the time `now` the user's slots are those of before, up to expired ones, and no entry of the
stream is one of the job. -/
structure NothingHeld (config : AppConfig) (sub : Submission) (before after : World) (now : ℕ) :
    Prop where
  slots : ∀ m, m ∈ (after.slots sub.principal.userId).window now (slotTtlMs config) ↔
    m ∈ (before.slots sub.principal.userId).window now (slotTtlMs config)
  stream : ∀ e ∈ after.stream, ¬ OfJob sub.jobId e

/-! ### The two parts of a submission -/

section

variable (config : AppConfig) (sub : Submission) (env : Env) (w : World)

/-- The command that takes the slot. -/
def slotCmd : Cmd :=
  .acquire sub.principal.userId sub.jobId (concurrencyLimitForTier config sub.principal.tier)
    (slotTtlMs config)

/-- The transaction that enqueues the job. -/
def enqueueCmd : Cmd := .enqueue sub.payload sub.record

/-- The fate lets a script have its effect. -/
def Fate.executes : Fate → Bool
  | .reply | .unheard _ => true
  | _ => false

/-- The fate lets the `XADD` of the transaction have its effect. -/
def Fate.adds : Fate → Bool
  | .reply | .unheard _ | .setFails _ => true
  | _ => false

/-- The script was executed and found room for the slot. -/
def SlotAdded : Prop :=
  (env.fate (slotCmd config sub)).executes = true ∧
    ((w.slots sub.principal.userId).window (env.time (slotCmd config sub))
      (slotTtlMs config)).length < concurrencyLimitForTier config sub.principal.tier

/-- The transaction was sent and its `XADD` was executed. -/
def XaddDone : Prop :=
  (sub.groupEnsured = true ∨ env.fate .xgroupCreate = .reply) ∧
    (env.fate (enqueueCmd sub)).adds = true

instance : Decidable (SlotAdded config sub env w) := inferInstanceAs (Decidable (_ ∧ _))

/-- The user's set after `acquireSlot`. -/
def acquired : SlotSet :=
  if (env.fate (slotCmd config sub)).executes then
    ((w.slots sub.principal.userId).acquire (env.time (slotCmd config sub)) sub.jobId
      (slotTtlMs config) (concurrencyLimitForTier config sub.principal.tier)).1
  else w.slots sub.principal.userId

/-- `acquireSlot` returns; the script has its effect on the user's set or none. -/
theorem acquireSlot_spec : ∃ w₁ granted,
    env.run w (acquireSlot config sub.principal sub.jobId) = (w₁, .ok granted) ∧
      w₁.slots sub.principal.userId = acquired config sub env w ∧ w₁.stream = w.stream := by
  have hact : env.run w (issue (slotCmd config sub)) =
      meet (env.time (slotCmd config sub)) w (slotCmd config sub)
        (env.fate (slotCmd config sub)) := Program.actOn_perform ..
  rw [acquired]
  cases hfate : env.fate (slotCmd config sub) with
  | reply =>
    rw [hfate] at hact
    exact ⟨_, _, Program.actOn_tryCatch_ok hact _, Function.update_self .., rfl⟩
  | unheard e =>
    rw [hfate] at hact
    exact ⟨_, _, Program.actOn_tryCatch_error hact _, Function.update_self .., rfl⟩
  | lost e | setFails e | xaddFails e =>
    rw [hfate] at hact
    exact ⟨_, _, Program.actOn_tryCatch_error hact _, rfl, rfl⟩

/-- `ensureConsumerGroup` changes neither slots nor stream, and raises when its command does. -/
theorem ensureConsumerGroup_spec : ∃ w₁ r,
    env.run w (ensureConsumerGroup sub.groupEnsured) = (w₁, r) ∧
      w₁.slots = w.slots ∧ w₁.stream = w.stream ∧
      (r = .ok () ↔ sub.groupEnsured = true ∨ env.fate .xgroupCreate = .reply) := by
  by_cases hensured : sub.groupEnsured = true
  · exact ⟨w, .ok (), by simp [Env.run, ensureConsumerGroup, hensured], rfl, rfl,
      by simp [hensured]⟩
  · have hact : env.run w (issue .xgroupCreate) =
        meet (env.time .xgroupCreate) w .xgroupCreate (env.fate .xgroupCreate) :=
      Program.actOn_perform ..
    simp only [ensureConsumerGroup, if_neg hensured]
    cases hfate : env.fate .xgroupCreate with
    | reply =>
      rw [hfate] at hact
      exact ⟨_, _, Program.actOn_bind_ok hact _, rfl, rfl, by simp⟩
    | lost e | unheard e | setFails e | xaddFails e =>
      rw [hfate] at hact
      exact ⟨_, _, Program.actOn_bind_error hact _, rfl, rfl, by simp [hensured]⟩

/-- The transaction has an answer that shows a failure, or none; it adds one entry or none. -/
theorem enqueue_spec : ∃ w₁ r, env.run w (issue (enqueueCmd sub)) = (w₁, r) ∧
    w₁.slots = w.slots ∧
    (w₁.stream = w.stream ++ [⟨w.nextId, sub.payload.toValue⟩] ∧
        (env.fate (enqueueCmd sub)).adds = true ∨
      w₁.stream = w.stream ∧ ¬ (env.fate (enqueueCmd sub)).adds = true) := by
  have hact : env.run w (issue (enqueueCmd sub)) =
      meet (env.time (enqueueCmd sub)) w (enqueueCmd sub) (env.fate (enqueueCmd sub)) :=
    Program.actOn_perform ..
  rw [hact]
  cases env.fate (enqueueCmd sub) with
  | reply | unheard e | setFails e => exact ⟨_, _, rfl, rfl, .inl ⟨rfl, rfl⟩⟩
  | lost e | xaddFails e => exact ⟨_, _, rfl, rfl, .inr ⟨rfl, by simp [Fate.adds]⟩⟩

/-- `enqueueJob` leaves the slots alone, and adds the entry of the job when its `XADD` is done. -/
theorem enqueueJob_spec : ∃ w₁ r, env.run w (enqueueJob sub) = (w₁, r) ∧ w₁.slots = w.slots ∧
    ((∃ id, w₁.stream = w.stream ++ [⟨id, sub.payload.toValue⟩]) ∧ XaddDone sub env ∨
      w₁.stream = w.stream ∧ ¬ XaddDone sub env) := by
  obtain ⟨w₁, r, hgroup, hslots, hstream, hr⟩ := ensureConsumerGroup_spec sub env w
  cases r with
  | error e =>
    refine ⟨w₁, .error e, Program.actOn_bind_error hgroup _, hslots, .inr ⟨hstream, ?_⟩⟩
    intro hdone
    exact absurd (hr.mpr hdone.1) (by simp)
  | ok u =>
    obtain ⟨w₂, r₂, henqueue, hslots₂, hstream₂⟩ := enqueue_spec sub env w₁
    refine ⟨w₂, r₂, (Program.actOn_bind_ok hgroup _).trans henqueue, hslots₂.trans hslots, ?_⟩
    rw [hstream] at hstream₂
    rcases hstream₂ with ⟨hadded, hadds⟩ | ⟨hsame, hadds⟩
    · exact .inl ⟨⟨_, hadded⟩, hr.mp rfl, hadds⟩
    · exact .inr ⟨hsame, fun hdone => hadds hdone.2⟩

/-- A failed submission has taken its slot and tried to enqueue the job. -/
theorem submit_failed {e : Exc} (h : (env.run w (submit config sub)).2 = .error e) : ∃ w',
    env.run w (submit config sub) = (w', .error e) ∧
      w'.slots sub.principal.userId = acquired config sub env w ∧
      ((∃ id, w'.stream = w.stream ++ [⟨id, sub.payload.toValue⟩]) ∧ XaddDone sub env ∨
        w'.stream = w.stream ∧ ¬ XaddDone sub env) := by
  obtain ⟨w₁, granted, hacquire, hslots, hstream⟩ := acquireSlot_spec config sub env w
  have hsubmit : env.run w (submit config sub) = _ := Program.actOn_bind_ok hacquire _
  cases granted with
  | false =>
    rw [hsubmit] at h
    cases h
  | true =>
    obtain ⟨w₂, r, henqueue, hslots₂, hstream₂⟩ := enqueueJob_spec sub env w₁
    rw [hstream] at hstream₂
    cases r with
    | ok u =>
      rw [hsubmit] at h
      have hreturns := Program.actOn_bind_ok henqueue fun _ => (pure true : Prog Bool)
      change (Program.actOn env.act w₁ (enqueueJob sub >>= fun _ => pure true)).2 = _ at h
      rw [hreturns] at h
      cases h
    | error e' =>
      have hraises := Program.actOn_bind_error henqueue fun _ => (pure true : Prog Bool)
      have hrun : env.run w (submit config sub) = (w₂, .error e') := hsubmit.trans hraises
      rw [hrun] at h
      obtain rfl : e' = e := by simpa using h
      exact ⟨w₂, hrun, (congrFun hslots₂ _).trans hslots, hstream₂⟩

/-- The handlers of both routes end as their submission does when it fails. -/
theorem handler_failed (route : Route) {e : Exc} {w' : World}
    (h : env.run w (submit config sub) = (w', .error e)) :
    env.run w (route.handler config sub) = (w', .error e) := by
  cases route with
  | execute polls => exact Program.actOn_bind_error h _
  | executeAsync => exact Program.actOn_bind_error h _

end

/-! ### What a failed submission holds -/

section

variable {config : AppConfig} {sub : Submission} {env : Env} {w : World} {now : ℕ}

theorem window_eq_nil {z : SlotSet} {n W : ℕ} (h : ∀ m ∈ z.members, m.2 + W ≤ n) :
    z.window n W = [] := by
  refine List.filter_eq_nil_iff.mpr fun m hm => ?_
  have hmem : m ∈ z.members := by
    rw [SlotSet.current] at hm
    split_ifs at hm
    · exact hm
    · simp at hm
  have hm' := h m hmem
  simp only [decide_eq_true_eq]
  omega

section

variable {z : SlotSet} {t ttlMs limit : ℕ} {member : Str}

theorem acquire_of_room (h : (z.window t ttlMs).length < limit) :
    z.acquire t member ttlMs limit =
      (⟨(member, t) :: (z.window t ttlMs).filter fun m => m.1 ≠ member, some (t + ttlMs)⟩, true) :=
  if_pos h

theorem acquire_of_full (h : ¬ (z.window t ttlMs).length < limit) :
    z.acquire t member ttlMs limit = (⟨z.window t ttlMs, z.expiry⟩, false) := if_neg h

/-- The script changes what the set shows later when it adds a slot that has not expired. -/
theorem acquire_unchanged_iff (hfresh : ∀ m ∈ z.members, m.1 ≠ member)
    (hpast : ∀ m ∈ z.members, m.2 ≤ t) (hnow : t ≤ now) :
    (∀ m, m ∈ (z.acquire t member ttlMs limit).1.window now ttlMs ↔ m ∈ z.window now ttlMs) ↔
      (¬ (z.window t ttlMs).length < limit ∨ t + ttlMs ≤ now) := by
  by_cases hroom : (z.window t ttlMs).length < limit
  · rw [acquire_of_room hroom]
    by_cases hover : t + ttlMs ≤ now
    · have hbefore : z.window now ttlMs = [] := window_eq_nil fun m hm => by
        have := hpast m hm
        omega
      refine iff_of_true (fun m => ?_) (.inr hover)
      rw [hbefore]
      simp [SlotSet.window, SlotSet.current, not_lt.mpr hover]
    · refine iff_of_false (fun hsame => ?_) (by tauto)
      have hmem := (hsame (member, t)).mp
        (by simp [SlotSet.window, SlotSet.current, not_le.mp hover])
      exact hfresh _ (mem_of_mem_window hmem) rfl
  · rw [acquire_of_full hroom]
    refine iff_of_true (fun m => ?_) (.inl hroom)
    rw [window_evict hnow]

end

/-- The user's slots are what they were unless the script added one that has not expired. -/
theorem slots_restored_iff
    (hfresh : ∀ m ∈ (w.slots sub.principal.userId).members, m.1 ≠ sub.jobId)
    (hpast : ∀ m ∈ (w.slots sub.principal.userId).members,
      m.2 ≤ env.time (slotCmd config sub))
    (hnow : env.time (slotCmd config sub) ≤ now) :
    (∀ m, m ∈ (acquired config sub env w).window now (slotTtlMs config) ↔
      m ∈ (w.slots sub.principal.userId).window now (slotTtlMs config)) ↔
    (¬ SlotAdded config sub env w ∨
      env.time (slotCmd config sub) + slotTtlMs config ≤ now) := by
  rw [acquired]
  by_cases hexec : (env.fate (slotCmd config sub)).executes = true
  · rw [if_pos hexec, acquire_unchanged_iff hfresh hpast hnow, SlotAdded]
    simp only [hexec, true_and]
  · rw [if_neg hexec]
    exact iff_of_true (fun m => Iff.rfl) (.inl fun hadded => hexec hadded.1)

theorem ofJob_payload (sub : Submission) (id : ℕ) : OfJob sub.jobId ⟨id, sub.payload.toValue⟩ :=
  ⟨_, rfl, rfl⟩

/-- **What a failed submission holds.** When the enqueue of a submission fails, the handlers of both
routes raise. At the time `now` they leave the user's slots as they were, and no entry of the job in
the stream, exactly when the script did not add the slot or it has expired again, and the `XADD`
of the transaction was not executed. -/
theorem nothing_held_iff (route : Route) {e : Exc}
    (hfresh : ∀ m ∈ (w.slots sub.principal.userId).members, m.1 ≠ sub.jobId)
    (hpast : ∀ m ∈ (w.slots sub.principal.userId).members,
      m.2 ≤ env.time (slotCmd config sub))
    (hstream : ∀ entry ∈ w.stream, ¬ OfJob sub.jobId entry)
    (hnow : env.time (slotCmd config sub) ≤ now)
    (hfail : (env.run w (submit config sub)).2 = .error e) :
    (env.run w (route.handler config sub)).2 = .error e ∧
      (NothingHeld config sub w (env.run w (route.handler config sub)).1 now ↔
        (¬ SlotAdded config sub env w ∨
          env.time (slotCmd config sub) + slotTtlMs config ≤ now) ∧ ¬ XaddDone sub env) := by
  obtain ⟨w', hrun, hslots, hentries⟩ := submit_failed config sub env w hfail
  rw [handler_failed config sub env w route hrun]
  refine ⟨rfl, ?_⟩
  rw [← slots_restored_iff hfresh hpast hnow, ← hslots]
  rcases hentries with ⟨⟨id, hadded⟩, hdone⟩ | ⟨hsame, hdone⟩
  · refine iff_of_false (fun hheld => ?_) fun hboth => hboth.2 hdone
    exact hheld.stream _ (by simp [hadded]) (ofJob_payload sub id)
  · constructor
    · exact fun hheld => ⟨hheld.slots, hdone⟩
    · rintro ⟨hrestored, -⟩
      exact ⟨hrestored, by rwa [hsame]⟩

end

/-- Redis is gone for the transaction, and for the script too if `all` is set. -/
def brownOut (all : Bool) : Env where
  time _ := 5
  fate
    | .enqueue _ _ => .lost .other
    | .acquire _ _ _ _ => if all then .lost .other else .reply
    | _ => .reply

theorem nothing_held_brownOut :
    NothingHeld Deployment.default.app (sampleSubmission sampleId) World.init
      ((brownOut true).run World.init
        (Route.executeAsync.handler Deployment.default.app (sampleSubmission sampleId))).1 9 :=
  (@nothing_held_iff Deployment.default.app (sampleSubmission sampleId) (brownOut true) World.init
    9 .executeAsync .other (by simp [World.init]) (by simp [World.init]) (by simp [World.init])
    (by decide) (by decide)).2.mpr
    ⟨.inl (by decide), fun hdone => absurd hdone.2 (by decide)⟩

/-- The enqueue fails after the slot was granted: the user keeps holding it. -/
theorem failed_submission_holds_slot :
    ((brownOut false).run World.init
      (submit Deployment.default.app (sampleSubmission sampleId))).2 = .error .other ∧
    (((brownOut false).run World.init
      (Route.executeAsync.handler Deployment.default.app
        (sampleSubmission sampleId))).1.slots (str "anna")).members = [(sampleId, 5)] ∧
    ¬ NothingHeld Deployment.default.app (sampleSubmission sampleId) World.init
      ((brownOut false).run World.init
        (Route.executeAsync.handler Deployment.default.app (sampleSubmission sampleId))).1 9 := by
  refine ⟨by decide, by decide, fun h => ?_⟩
  have hmem := (h.slots (sampleId, 5)).mp (by decide)
  exact absurd hmem (by decide)

end CodeInterpreter.Api
