import CodeInterpreter.Invariants.Deliveries

/-!
# Writes of a record

What a read of the record of a job shows, and how an answered command changes it: the enqueue
creates the record, the three rewrites replace it, and every other command leaves it alone.

## Main definitions

* `recordOf`, `resultOf`: what a read of the record and of the result of a job shows.

## Main results

* `record_none_of_enqueue`: the enqueue of a job finds no record.
* `recordOf_answered`: how an answered command changes what a read shows.
-/

namespace CodeInterpreter

open Async

variable {d : Deployment} {s : Sys}

/-! ### Reads at a time -/

theorem fetch_setEx {α : Type} (now : ℕ) (v : α) {seconds : ℕ} (h : 0 < seconds) :
    fetch now (some (setEx now v seconds)) = some v := by
  refine if_pos fun t ht => ?_
  obtain rfl : now + 1000 * seconds = t := Option.some.inj ht
  omega

/-- A value written with `KEEPTTL` is there right after: a key that had expired is created anew. -/
theorem fetch_setKeepTtl {α : Type} (now : ℕ) (old : Option (Stored α)) (v : α) :
    fetch now (some (setKeepTtl now old v)) = some v := by
  refine if_pos fun t ht => ?_
  cases old with
  | none => cases ht
  | some x =>
    simp only [setKeepTtl] at ht
    split_ifs at ht with hlive
    · exact hlive t ht
    · cases ht

/-- What a later read shows was there before, unless something was written in between. -/
theorem fetch_later {α : Type} {now now' : ℕ} (hle : now ≤ now') {x : Option (Stored α)} {v : α}
    (h : fetch now' x = some v) : fetch now x = some v := by
  obtain ⟨y, rfl, rfl, hlive⟩ := fetch_eq_some h
  exact if_pos fun t ht => hle.trans_lt (hlive t ht)

/-- What a read of the record of a job shows. -/
def recordOf (s : Sys) (j : Str) : Option JobRecord := fetch s.now (s.world.record j)

/-- What a read of the result of a job shows. -/
def resultOf (s : Sys) (j : Str) : Option ExecutionResult := fetch s.now (s.world.result j)

/-! ### What an answered command changes -/

/-- A process that has had no command answered does not rewrite a record. -/
theorem trace_ne_nil_of_recordWrite (h : (system d).Reachable s)
    {p : Process Cmd Reply Exc Role} (hp : p ∈ s.procs) {j : Str} {record : JobRecord}
    (hw : p.next.bind recordWrite = some (j, record)) : p.trace ≠ [] := by
  obtain ⟨c, hc, hw⟩ := Option.bind_eq_some_iff.mp hw
  obtain ⟨old, hread, -⟩ := read_of_recordWrite h hp hc hw
  intro hnil
  rw [hnil] at hread
  cases hread

/-- How an answered command changes what a read of the record of a job shows. -/
inductive RecordAfter (s : Sys) (j : Str) (c : Cmd) (w : World) : Prop
  | same (h : fetch s.now (w.record j) = recordOf s j)
  | written (record : JobRecord) (hc : recordWrite c = some (j, record))
      (h : fetch s.now (w.record j) = some record)
  | created (payload : JobPayload) (record : JobRecord) (hc : c = .enqueue payload record)
      (hj : payload.jobId = j) (hnone : s.world.record j = none)
      (h : fetch s.now (w.record j) = some record) (hpending : record.status = .pending)

/-- The enqueue of a job finds no record. -/
theorem record_none_of_enqueue (h : (system d).Reachable s) {p : Process Cmd Reply Exc Role}
    (hp : p ∈ s.procs) {payload : JobPayload} {record : JobRecord}
    (hnext : p.next = some (.enqueue payload record)) :
    s.world.record payload.jobId = none ∧ ¬ ∃ p', Enqueued s.hist p' ∧ p'.jobId = payload.jobId := by
  obtain ⟨k, hk⟩ := Process.next_eq_some.mp hnext
  have hno : ¬ ∃ p', Enqueued s.hist p' ∧ p'.jobId = payload.jobId := by
    rintro ⟨p', ⟨o, ho, -, r, hcmd⟩, hj⟩
    exact enqueue_first h hp hk o ho p' r hcmd hj
  refine ⟨?_, hno⟩
  cases hrec : s.world.record payload.jobId with
  | none => rfl
  | some x => exact absurd (record_enqueued h hrec) hno

theorem recordOf_answered (h : (system d).Reachable s) {a : Act} {p : Process Cmd Reply Exc Role}
    {c : Cmd} {w : World} {r : Except Exc (Reply c)} {b : Bool}
    (ha : (system d).Answered s a p c w r b) (j : Str) : RecordAfter s j c w := by
  have hnext : p.next = some c := Process.next_eq_some.mpr ha.next
  rcases answered_cases ha with ⟨rfl, -, -⟩ | ⟨o, rfl, -, -⟩
  · exact .same rfl
  cases @exec_record s.now s.world c o with
  | enqueue payload record hw =>
    by_cases hj : j = payload.jobId
    · subst hj
      refine .created payload record rfl rfl (record_none_of_enqueue h ha.mem hnext).1 ?_ ?_
      · rw [hw, Function.update_self]
        exact fetch_setEx s.now record (by decide)
      · obtain ⟨k, hk⟩ := ha.next
        obtain ⟨sub, -, -, rfl, -⟩ := (reachable_allows h ha.mem hk).2
        rfl
    · refine .same ?_
      rw [hw, Function.update_of_ne hj]
      rfl
  | write jobId record hc hw =>
    by_cases hj : j = jobId
    · subst hj
      refine .written record (recordWrite_eq_some.mpr hc) ?_
      rw [hw, Function.update_self]
      exact fetch_setKeepTtl s.now _ record
    · refine .same ?_
      rw [hw, Function.update_of_ne hj]
      rfl
  | other hc hw =>
    refine .same ?_
    rw [hw]
    rfl

end CodeInterpreter
