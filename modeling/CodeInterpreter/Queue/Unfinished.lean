import CodeInterpreter.Queue.NoLostJob

/-!
# What the stream still holds

`ack` removes an entry with two commands, `XACK` and then `XDEL`. Between the two the entry is in
the stream but neither undelivered nor pending; the run of `_process` that is about to issue the
`XDEL` is the only one that knows of it. When it crashes there, or when the second command does not
get through, the entry stays in the stream and nobody is left to delete it.

## Main definitions

* `Acking`: the process is between its `XACK` and its `XDEL`.
* `AcksComplete`: no crash and no error comes between the two commands.

## Main results

* `process_tidy`: after its `XACK` a run of `_process` issues the `XDEL` of the same entry.
* `accounted_of_acksComplete`: then every entry is held, or about to be deleted.
* `stream_unfinished`: so the stream holds unfinished work only.
-/

namespace CodeInterpreter

open Async

variable {d : Deployment} {s : Sys} {α β : Type} {t : Trace}

/-! ### An `XACK` is followed by its `XDEL` -/

/-- The entry whose `XACK` was answered last. -/
def openAck : Trace → Option ℕ
  | ⟨.xack id, .ok _⟩ :: _ => some id
  | _ => none

/-- After an `XACK`, a run of `_process` issues the `XDEL` of the same entry. -/
def ackDiscipline : Discipline Cmd Reply Exc Role where
  allows role t c := role.isDelivery = true → ∀ id, openAck t = some id → c = .xdel id
  ends role t := role.isDelivery = true → openAck t = none

/-- The program opens no `XACK` that it does not close. -/
def Tidy (d : Deployment) (role : Role) (p : Prog α) : Prop :=
  ∀ t, openAck t = none →
    p.wp ((system d).contract ackDiscipline role) (fun _ t' => openAck t' = none) t

section

variable {role : Role}

theorem tidy_pure (a : α) : Tidy d role (pure a) := fun _ ht => ht

theorem tidy_throw (e : Exc) : Tidy d role (throw e : Prog α) := fun _ ht => ht

theorem tidy_ofExcept (x : Except Exc α) : Tidy d role (Program.ofExcept x) := fun _ ht => by
  rw [Program.wp_ofExcept]
  exact ht

theorem tidy_bind {p : Prog α} {f : α → Prog β} (hp : Tidy d role p)
    (hf : ∀ a, Tidy d role (f a)) : Tidy d role (p >>= f) := fun t ht =>
  Program.wp_bind_of (hp t ht) (fun a t' _ ht' => hf a t' ht') fun _ _ _ ht' => ht'

theorem tidy_tryCatch {p : Prog α} {h : Exc → Prog α} (hp : Tidy d role p)
    (hh : ∀ e, Tidy d role (h e)) : Tidy d role (tryCatch p h) := fun t ht =>
  Program.wp_tryCatch_of (hp t ht) (fun _ _ _ ht' => ht') fun e t' _ ht' => hh e t' ht'

theorem tidy_ite {b : Prop} [Decidable b] {p q : Prog α} (hp : Tidy d role p)
    (hq : Tidy d role q) : Tidy d role (if b then p else q) := by
  split
  · exact hp
  · exact hq

theorem openAck_cons {c : Cmd} (hc : ∀ id, c ≠ .xack id) (r : Except Exc (Reply c)) :
    openAck (⟨c, r⟩ :: t) = none := by
  cases c with
  | xack id => exact absurd rfl (hc id)
  | _ => rfl

/-- What a program may issue while it has closed all its `XACK`s. -/
theorem allows_of_closed (ht : openAck t = none) (c : Cmd) : ackDiscipline.allows role t c := by
  intro _ id hopen
  rw [ht] at hopen
  cases hopen

/-- A command other than an `XACK`. -/
theorem tidy_issue {c : Cmd} (hc : ∀ id, c ≠ .xack id) : Tidy d role (issue c) := by
  intro t ht
  rw [Program.wp_perform]
  exact ⟨allows_of_closed ht c, fun r _ => openAck_cons hc r⟩

/-- `ack` closes what it opens; when the `XACK` raises nothing was opened. -/
theorem tidy_ack (msgId : ℕ) : Tidy d role (Worker.ack msgId) := by
  intro t ht
  refine ⟨allows_of_closed ht _, fun r _ => ?_⟩
  cases r with
  | error e => rfl
  | ok u =>
    refine ⟨fun _ id hopen => ?_, fun r _ => ?_⟩
    · obtain rfl : msgId = id := Option.some.inj hopen
      rfl
    · cases r with
      | ok u => rfl
      | error e => rfl

theorem tidy_patchRecord (jobId : Str) (fields : JobRecord → JobRecord) :
    Tidy d role (Worker.patchRecord jobId fields) := by
  refine tidy_bind (tidy_issue (c := .getRecord jobId) fun id h => by cases h) fun found => ?_
  cases found with
  | none => exact tidy_pure _
  | some record => exact tidy_bind (tidy_issue fun id h => by cases h) fun _ => tidy_pure _

theorem tidy_storeTerminal (cfg : WorkerConfig) (jobId : Str) (result : ExecutionResult) :
    Tidy d role (Worker.storeTerminal cfg jobId result) := by
  have harchive : Tidy d role (Worker.archive cfg jobId result) :=
    tidy_ite (tidy_tryCatch (tidy_issue (c := .archive jobId result) fun id h => by cases h)
      fun _ => tidy_pure _) (tidy_pure _)
  refine tidy_bind harchive fun _ => ?_
  refine tidy_bind (tidy_issue (c := .setResult jobId result) fun id h => by cases h) fun _ => ?_
  exact tidy_bind (tidy_patchRecord _ _) fun _ => tidy_pure _

theorem tidy_releaseSlot (userId jobId : Str) : Tidy d role (Worker.releaseSlot userId jobId) :=
  tidy_ite (tidy_pure _)
    (tidy_tryCatch (tidy_issue (c := .zrem userId jobId) fun id h => by cases h)
      fun _ => tidy_pure _)

theorem tidy_publishDone (jobId : Str) (result : ExecutionResult) :
    Tidy d role (Worker.publishDone jobId result) := tidy_issue fun id h => by cases h

theorem tidy_finalizeFailed (cfg : WorkerConfig) (jobId : Str) (e : Exc) :
    Tidy d role (Worker.finalizeFailed cfg jobId e) :=
  tidy_bind (tidy_storeTerminal _ _ _) fun _ => tidy_publishDone _ _

theorem tidy_finalizeCancelled (cfg : WorkerConfig) (jobId : Str) :
    Tidy d role (Worker.finalizeCancelled cfg jobId) :=
  tidy_bind (tidy_storeTerminal _ _ _) fun _ => tidy_publishDone _ _

theorem tidy_deadLetter (message : QueueMessage) (reason : Str) :
    Tidy d role (Worker.deadLetter message reason) :=
  tidy_bind (tidy_issue fun id h => by cases h) fun _ => tidy_ack _

theorem tidy_runJob (cfg : WorkerConfig) (jobId : Str) (request : ExecutionRequest) :
    Tidy d role (Worker.runJob cfg jobId request) := by
  refine tidy_bind (tidy_issue (c := .inFlight 1) fun id h => by cases h) fun _ => ?_
  refine tidy_bind (tidy_bind (tidy_patchRecord _ _) fun _ => tidy_pure _) fun _ => ?_
  refine tidy_bind (tidy_issue (c := .publish jobId _) fun id h => by cases h) fun _ => ?_
  refine tidy_bind (tidy_issue (c := .execute request jobId) fun id h => by cases h)
    fun execution => ?_
  refine tidy_bind (tidy_ofExcept _) fun _ => ?_
  refine tidy_bind (tidy_issue (c := .inFlight (-1)) fun id h => by cases h) fun _ => ?_
  refine tidy_bind (tidy_ofExcept _) fun result => ?_
  exact tidy_bind (tidy_storeTerminal _ _ _) fun _ => tidy_publishDone _ _

theorem tidy_processRequest (cfg : WorkerConfig) (userId jobId : Str) (request : ExecutionRequest)
    (msgId : ℕ) : Tidy d role (Worker.processRequest cfg userId jobId request msgId) := by
  have hend : ∀ {p : Prog Unit}, Tidy d role p → Tidy d role (do
      p
      Worker.releaseSlot userId jobId
      Worker.ack msgId) := fun hp =>
    tidy_bind hp fun _ => tidy_bind (tidy_releaseSlot _ _) fun _ => tidy_ack _
  refine tidy_bind (tidy_issue (c := .existsCancel jobId) fun id h => by cases h)
    fun cancelled => ?_
  refine tidy_ite (hend (tidy_finalizeCancelled cfg jobId)) ?_
  refine tidy_tryCatch (hend (tidy_runJob cfg jobId request)) fun e => ?_
  exact tidy_ite (tidy_pure _) (hend (tidy_finalizeFailed cfg jobId e))

theorem tidy_processMalformed (cfg : WorkerConfig) (userId jobId : Str) (message : QueueMessage) :
    Tidy d role (Worker.processMalformed cfg userId jobId message) := by
  have hend : Tidy d role (Worker.releaseSlot userId jobId >>= fun _ =>
      Worker.deadLetter message (str "malformed_payload")) :=
    tidy_bind (tidy_releaseSlot _ _) fun _ => tidy_deadLetter _ _
  dsimp only [Worker.processMalformed]
  split_ifs
  · exact hend
  · exact tidy_bind (tidy_finalizeFailed _ _ _) fun _ => hend

/-- **After its `XACK` a run of `_process` issues the `XDEL` of the same entry**, in all of its
branches. -/
theorem process_tidy (py : Python) (cfg : WorkerConfig) (message : QueueMessage) :
    Tidy d role (Worker.process py cfg message) := by
  refine tidy_bind (tidy_ofExcept _) fun jobId => tidy_bind (tidy_ofExcept _) fun userId => ?_
  refine tidy_ite ?_ ?_
  · refine tidy_bind (tidy_finalizeFailed _ _ _) fun _ => ?_
    exact tidy_bind (tidy_releaseSlot _ _) fun _ => tidy_deadLetter _ _
  · cases Worker.requestOf py message.payload with
    | ok request => exact tidy_processRequest _ _ _ _ _
    | error e =>
      exact tidy_ite (tidy_processMalformed _ _ _ _) (tidy_throw _)

/-- A process of another role has nothing to keep. -/
theorem kept_of_not_delivery (h : role.isDelivery = false) (p : Prog Unit) (t : Trace) :
    (system d).Kept ackDiscipline role t p := by
  induction p generalizing t with
  | pure a => exact fun hrole => by simp [h] at hrole
  | throw e => exact fun hrole => by simp [h] at hrole
  | call c k ih => exact ⟨fun hrole => by simp [h] at hrole, fun r _ => ih r _⟩

end

theorem reachable_tidy (h : (system d).Reachable s) :
    ∀ p ∈ s.procs, (system d).Kept ackDiscipline p.role p.trace p.prog := by
  refine System.reachable_kept h (fun q => ?_) fun role t c _ x hx => ?_
  · refine kept_of_not_delivery ?_ _ _
    cases q <;> rfl
  · change x ∈ fork d role c at hx
    unfold fork at hx
    split at hx
    · obtain rfl := List.mem_singleton.mp hx
      exact Program.wp_mono (process_tidy _ _ _ [] rfl) fun _ _ hclosed _ => hclosed
    · exact absurd hx List.not_mem_nil

/-- A process whose `XACK` was answered last is about to issue the `XDEL`. -/
theorem next_of_openAck {p : Process Cmd Reply Exc Role}
    (hkept : (system d).Kept ackDiscipline p.role p.trace p.prog)
    (hrole : p.role.isDelivery = true) {id : ℕ} (hopen : openAck p.trace = some id) :
    p.next = some (.xdel id) := by
  rw [Process.next_eq_some]
  cases hprog : p.prog with
  | pure a =>
    rw [System.Kept, hprog] at hkept
    exact absurd (hkept hrole) (by simp [hopen])
  | throw e =>
    rw [System.Kept, hprog] at hkept
    exact absurd (hkept hrole) (by simp [hopen])
  | call c k =>
    obtain rfl := hkept.allows hprog hrole id hopen
    exact ⟨k, rfl⟩

/-! ### Entries and the processes that know of them -/

/-- The process is between its `XACK` and its `XDEL`. -/
def Acking (p : Process Cmd Reply Exc Role) (id : ℕ) : Prop := p.next = some (.xdel id)

/-- Nothing comes between an `XACK` and its `XDEL`: no process crashes there, the reply of an `XACK`
that was executed is heard, and the `XDEL` is not lost. -/
def AcksComplete (s : Sys) : Act → Prop
  | .crash i => ∀ p, s.procs[i]? = some p → ∀ id, ¬ Acking p id
  | .answer i (.unheard _ _) => ∀ p, s.procs[i]? = some p → ∀ id, p.next ≠ some (.xack id)
  | .answer i (.lost _) => ∀ p, s.procs[i]? = some p → ∀ id, ¬ Acking p id
  | _ => True

/-- Every entry of the stream is held, or a process is about to delete it. -/
def Accounted (s : Sys) : Prop :=
  ∀ e ∈ s.world.stream, Held s.world e ∨ ∃ p ∈ s.procs, Acking p e.id

theorem mem_eraseIdx_of_ne {γ : Type} {l : List γ} {i : ℕ} {x y : γ} (hx : x ∈ l)
    (hi : l[i]? = some y) (hne : x ≠ y) : x ∈ l.eraseIdx i := by
  obtain ⟨j, hj, rfl⟩ := List.getElem_of_mem hx
  refine List.mem_eraseIdx_iff_getElem?.mpr ⟨j, ?_, List.getElem?_eq_getElem hj⟩
  rintro rfl
  rw [List.getElem?_eq_getElem hj] at hi
  exact hne (Option.some.inj hi)

theorem Accounted.crash {i : ℕ} (h : Accounted s) (hi : i < s.procs.length)
    (ha : AcksComplete s (.crash i)) : Accounted { s with procs := s.procs.eraseIdx i } := by
  intro e he
  refine (h e he).imp_right ?_
  rintro ⟨p, hp, hacking⟩
  refine ⟨p, mem_eraseIdx_of_ne hp (List.getElem?_eq_getElem hi) ?_, hacking⟩
  rintro rfl
  exact ha _ (List.getElem?_eq_getElem hi) e.id hacking

section Answer

variable {i : ℕ} {p : Process Cmd Reply Exc Role} {c : Cmd} {k : Except Exc (Reply c) → Prog Unit}
  {w : World} {r : Except Exc (Reply c)} {b : Bool}

theorem mem_set_of_ne {γ : Type} {l : List γ} {i : ℕ} {x y z : γ} (hx : x ∈ l)
    (hi : l[i]? = some y) (hne : x ≠ y) : x ∈ l.set i z := by
  obtain ⟨j, hj, rfl⟩ := List.getElem_of_mem hx
  refine List.mem_of_getElem? (i := j) ?_
  rw [List.getElem?_set_ne, List.getElem?_eq_getElem hj]
  rintro rfl
  rw [List.getElem?_eq_getElem hj] at hi
  exact hne (Option.some.inj hi)

/-- A process that was about to delete an entry still is, or it has just been answered. -/
theorem acking_after (hi : s.procs[i]? = some p) (hp : p.prog = .call c k) {id : ℕ}
    (h : ∃ q ∈ s.procs, Acking q id) :
    c = .xdel id ∨ ∃ q ∈ ((system d).after s i p c k w r b).procs, Acking q id := by
  obtain ⟨q, hq, hacking⟩ := h
  by_cases heq : q = p
  · subst heq
    obtain ⟨k', hk'⟩ := Process.next_eq_some.mp hacking
    cases hp.symm.trans hk'
    exact .inl rfl
  · exact .inr ⟨q, List.mem_append_left _ (mem_set_of_ne hq hi heq), hacking⟩

theorem not_mem_stream_of_xdel {now : ℕ} {e : StreamEntry} {o : Oracle} (hc : c = .xdel e.id) :
    e ∉ (World.exec now w c o).1.stream := by
  subst hc
  simp [World.exec]

/-- A command that had its effect. -/
theorem Accounted.applied (h : Accounted s) (hreach : (system d).Reachable s)
    (hi : s.procs[i]? = some p) (hp : p.prog = .call c k) (o : Oracle)
    (hack : ∀ id, c = .xack id → ∃ q ∈ ((system d).after s i p c k
      (World.exec s.now s.world c o).1 r b).procs, Acking q id) :
    Accounted ((system d).after s i p c k (World.exec s.now s.world c o).1 r b) := by
  have hqueue := reachable_queue hreach
  intro e he
  rcases (exec_stream c o).2 e he with hold | ⟨payload, record, rfl, rfl⟩
  · rcases h e hold with hheld | hacking
    · by_cases hc : c = .xack e.id
      · exact .inr (hack e.id hc)
      · by_cases hd : c = .xdel e.id
        · exact absurd he (not_mem_stream_of_xdel hd)
        · exact .inl (held_of_exec hqueue hheld c o hc hd)
    · rcases acking_after hi hp hacking with hd | hacking
      · exact absurd he (not_mem_stream_of_xdel hd)
      · exact .inr hacking
  · exact .inl ⟨he, .inl hqueue.last⟩

/-- An answer that completes the acknowledgements. -/
theorem Accounted.answer {ans : Answer Exc Oracle} (h : Accounted s)
    (hreach : (system d).Reachable s) (hi : s.procs[i]? = some p) (hp : p.prog = .call c k)
    (hr : (system d).respond s.now s.world c ans = some (w, r, b))
    (ha : AcksComplete s (.answer i ans)) : Accounted ((system d).after s i p c k w r b) := by
  have hstep : (system d).step s (.answer i ans) = some ((system d).after s i p c k w r b) := by
    simp only [System.step, hi, hp, hr, Option.map_some]
  have hnext : p.next = some c := Process.next_eq_some.mpr ⟨k, hp⟩
  cases ans with
  | lost err =>
    simp only [System.respond] at hr
    split_ifs at hr
    cases hr
    intro e he
    refine (h e he).imp_right fun hacking => ?_
    rcases acking_after hi hp hacking with rfl | hacking
    · exact absurd hnext (ha p hi e.id)
    · exact hacking
  | unheard err o =>
    simp only [System.respond] at hr
    split_ifs at hr
    cases hr
    refine h.applied hreach hi hp o fun id hc => ?_
    rw [hc] at hnext
    exact absurd hnext (ha p hi id)
  | reply o =>
    cases hr
    refine h.applied hreach hi hp o fun id hc => ?_
    subst hc
    -- the process that was answered goes on with the `XDEL`
    have hmem : p.resume (.xack id) k (.ok ()) ∈ ((system d).after s i p (.xack id) k
        (World.exec s.now s.world (.xack id) o).1 (.ok ()) true).procs :=
      List.mem_append_left _ (List.mem_set (List.getElem?_eq_some_iff.mp hi).1 _)
    obtain ⟨wid, m, j, hrole, -⟩ := (reachable_allows hreach (List.mem_of_getElem? hi) hp).2
    have hkept := reachable_tidy (System.Run.step hreach _ trivial hstep) _ hmem
    refine ⟨_, hmem, next_of_openAck hkept ?_ rfl⟩
    change p.role.isDelivery = true
    rw [hrole]
    rfl

end Answer

/-- When all acknowledgements complete, every entry is held or about to be deleted. -/
theorem accounted_of_acksComplete (h : (system d).Run AcksComplete (system d).start s) :
    Accounted s := by
  refine System.Run.invariant_reachable h .refl ?_ fun e he => absurd he List.not_mem_nil
  intro t a t' ht ih ha hst
  cases System.step_cases hst with
  | arrive q hq =>
    intro e he
    refine (ih e he).imp_right ?_
    rintro ⟨p, hp, hacking⟩
    exact ⟨p, List.mem_append_left _ hp, hacking⟩
  | answer i ans p c k w r b hi hp hr => exact ih.answer ht hi hp hr ha
  | crash i hi => exact ih.crash hi ha
  | tick n => exact ih

/-- **The stream holds unfinished work only.** In every run in which nothing comes between an `XACK`
and its `XDEL`, whenever no process is between the two, every entry of the stream is yet to be
delivered or pending. -/
theorem stream_unfinished (d : Deployment) (s : Sys)
    (h : (system d).Run AcksComplete (system d).start s)
    (hidle : ∀ p ∈ s.procs, ∀ id, ¬ Acking p id) :
    ∀ e ∈ s.world.stream, s.world.lastDelivered < e.id ∨ ∃ q ∈ s.world.pending, q.id = e.id := by
  intro e he
  rcases accounted_of_acksComplete h e he with hheld | ⟨p, hp, hacking⟩
  · exact hheld.2
  · exact absurd hacking (hidle p hp e.id)

/-- The process is not between its `XACK` and its `XDEL`. -/
def idle (p : Process Cmd Reply Exc Role) : Bool :=
  match p.next with
  | some (.xdel _) => false
  | _ => true

theorem not_acking_of_idle {p : Process Cmd Reply Exc Role} (h : idle p = true) (id : ℕ) :
    ¬ Acking p id := by
  intro hacking
  rw [idle, hacking] at h
  cases h

/-- The action is no crash and no error. -/
def undisturbed : Act → Bool
  | .crash _ | .answer _ (.lost _) | .answer _ (.unheard _ _) => false
  | _ => true

theorem acksComplete_of_undisturbed (s : Sys) (a : Act) (h : undisturbed a = true) :
    AcksComplete s a := by
  cases a with
  | arrive q => exact trivial
  | tick n => exact trivial
  | crash i => cases h
  | answer i ans =>
    cases ans with
    | reply o => exact trivial
    | lost e => cases h
    | unheard e o => cases h

/-- The sample job is submitted and delivered to a worker. -/
def deliverSample : List Act := submitSample ++ completeSample.take 5

theorem stream_unfinished_sample :
    (sampleRun deliverSample).world.stream.length = 1 ∧
      ∀ e ∈ (sampleRun deliverSample).world.stream,
        (sampleRun deliverSample).world.lastDelivered < e.id ∨
          ∃ q ∈ (sampleRun deliverSample).world.pending, q.id = e.id :=
  ⟨by decide +kernel, stream_unfinished .default _
    (System.run_of_test (fun _ => undisturbed) acksComplete_of_undisturbed deliverSample
      (by decide +kernel))
    fun p hp => not_acking_of_idle (List.all_eq_true.mp
      (show (sampleRun deliverSample).procs.all idle = true by decide +kernel) p hp)⟩

/-- The worker crashes after the `XACK` of the sample job. -/
def crashMidAck : List Act := submitSample ++ completeSample.dropLast ++ [.crash 2]

/-- The entry of a finished job stays in the stream, and no process knows of it. -/
theorem finished_entry_stays :
    (system .default).Reachable (sampleRun crashMidAck) ∧
      (∀ p ∈ (sampleRun crashMidAck).procs, ∀ id, ¬ Acking p id) ∧
      ∃ e ∈ (sampleRun crashMidAck).world.stream,
        ¬ ((sampleRun crashMidAck).world.lastDelivered < e.id ∨
          ∃ q ∈ (sampleRun crashMidAck).world.pending, q.id = e.id) := by
  refine ⟨reachable_sampleRun _ (by decide +kernel), fun p hp => ?_, ?_⟩
  · exact not_acking_of_idle (List.all_eq_true.mp
      (show (sampleRun crashMidAck).procs.all idle = true by decide +kernel) p hp)
  · refine ⟨⟨1, (sampleSubmission sampleId).payload.toValue⟩, ?_, ?_⟩
    · have hstream : (sampleRun crashMidAck).world.stream =
          [⟨1, (sampleSubmission sampleId).payload.toValue⟩] := by rfl
      simp [hstream]
    · decide +kernel

end CodeInterpreter
