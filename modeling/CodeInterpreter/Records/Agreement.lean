import CodeInterpreter.Records.Writes

/-!
# The record and the result of a job

`store_terminal` writes a result twice: under the result key, and then into the record, where
`DELETE` and `set_running` write as well. The two copies part when one of those two writes its
stale record over a finished one, or when two stores of the same job overlap. When neither
happens, the record of a job agrees with its result whenever no store is between its two writes.

## Main definitions

* `StoresComplete`: no store is cut short between its two writes.
* `StoresApart`: the step neither overwrites a finished record nor lets two stores overlap.
* `AgreementOk`: the record agrees with the result, or a store of that result is in progress.

## Main results

* `agreementOk_run`: the invariant of the runs with `StoresComplete` and `StoresApart`.
* `record_agrees`: in these runs the record and the result agree when no store is in progress.
* `record_disagrees`: a `DELETE` that reads before a store and writes after it.
-/

namespace CodeInterpreter

open Async

variable {d : Deployment} {j : Str}

/-- The status and the result of the record are those of the stored result. -/
def Agrees (record : JobRecord) (r : ExecutionResult) : Prop :=
  record.status = r.status ∧ record.result = some r

/-- No `store_terminal` of the job is cut short between its two writes: the process does not crash
there, its commands get their replies, and it hears that the result was written. -/
structure StoresComplete (j : Str) (s : Sys) (a : Act) : Prop where
  crash : ∀ i p r, a = .crash i → s.procs[i]? = some p → midStore p.trace ≠ some (j, r)
  replied : ∀ i ans p r, a = .answer i ans → s.procs[i]? = some p →
    midStore p.trace = some (j, r) → ∃ o, ans = .reply o
  heard : ∀ i ans p r, a = .answer i ans → s.procs[i]? = some p → p.next = some (.setResult j r) →
    ∀ e o, ans ≠ .unheard e o

/-- The step keeps the rewrites of the record apart from the stores. A rewrite by `DELETE` or
`set_running` comes when there is no result, or when a store is still to write the record
(`overwrite`), and a store starts when no other one is in progress (`overlap`). -/
structure StoresApart (j : Str) (s : Sys) (a : Act) : Prop where
  overwrite : ∀ p c record, s.next a = some (p, c) → recordWrite c = some (j, record) →
    (∀ r, midStore p.trace ≠ some (j, r)) → ∀ r, resultOf s j = some r →
      Agrees record r ∨ ∃ q ∈ s.procs, midStore q.trace = some (j, r)
  overlap : ∀ p r, s.next a = some (p, .setResult j r) →
    ∀ q ∈ s.procs, ∀ r', midStore q.trace ≠ some (j, r')

/-- Every store in progress has written the present result (`latest`), and the record agrees with
the result unless a store of it is in progress (`agree`). -/
structure AgreementOk (j : Str) (s : Sys) : Prop where
  latest : ∀ q ∈ s.procs, ∀ r', midStore q.trace = some (j, r') →
    ∀ r, resultOf s j = some r → r' = r
  agree : ∀ r record, resultOf s j = some r → recordOf s j = some record →
    Agrees record r ∨ ∃ q ∈ s.procs, midStore q.trace = some (j, r)

/-! ### Results -/

/-- A result under the key of a job was written by a worker. -/
theorem result_written {s : Sys} (h : (system d).Reachable s) {x : Stored ExecutionResult}
    (hx : s.world.result j = some x) : Written s.hist j := by
  have hinv : ∀ j x, s.world.result j = some x → Written s.hist j := by
    refine System.Reachable.history_invariant (J := fun w hist =>
      ∀ j (x : Stored ExecutionResult), w.result j = some x → Written hist j) h ?_ ?_
    · intro j x hx
      cases hx
    · intro t a p c w r b _ ha ih j x hx
      rcases answered_cases ha with ⟨rfl, -, -⟩ | ⟨o, rfl, rfl, -⟩
      · exact (ih j x hx).cons _
      cases @exec_result t.now t.world c o with
      | store j' res hw =>
        by_cases hj : j = j'
        · subst hj
          exact ⟨_, List.mem_cons_self, rfl, res, rfl⟩
        · rw [hw, Function.update_of_ne hj] at hx
          exact (ih j x hx).cons _
      | other hc hw =>
        rw [hw] at hx
        exact (ih j x hx).cons _
  exact hinv j x hx

/-- A job with a result was enqueued. -/
theorem written_enqueued {s : Sys} (h : (system d).Reachable s) (hw : Written s.hist j) :
    ∃ p, Enqueued s.hist p ∧ p.jobId = j := by
  obtain ⟨o, ho, -, r, hcmd⟩ := hw
  obtain ⟨t, hperm, -⟩ := permitted_of_mem h ho
  rw [hcmd] at hperm
  exact handled_enqueued h ((System.reachable_originates h).2 o ho) hperm

/-- The enqueue of a job finds no result. -/
theorem result_none_of_enqueue {s : Sys} (h : (system d).Reachable s)
    {p : Process Cmd Reply Exc Role} (hp : p ∈ s.procs) {payload : JobPayload}
    {record : JobRecord} (hnext : p.next = some (.enqueue payload record)) :
    resultOf s payload.jobId = none := by
  cases hr : s.world.result payload.jobId with
  | none => rw [resultOf, hr, fetch]
  | some x =>
    have henq := written_enqueued h (result_written h hr)
    exact absurd henq (record_none_of_enqueue h hp hnext).2

/-- How an answered command changes what a read of the result of a job shows. -/
theorem resultOf_answered {s : Sys} {a : Act} {p : Process Cmd Reply Exc Role} {c : Cmd}
    {w : World} {r : Except Exc (Reply c)} {b : Bool} (ha : (system d).Answered s a p c w r b)
    (j : Str) :
    (fetch s.now (w.result j) = resultOf s j ∧ (b = true → ∀ res, c ≠ .setResult j res)) ∨
    ∃ res, c = .setResult j res ∧ b = true ∧ fetch s.now (w.result j) = some res := by
  rcases answered_cases ha with ⟨rfl, rfl, -⟩ | ⟨o, rfl, rfl, -⟩
  · exact .inl ⟨rfl, fun hb => by cases hb⟩
  cases @exec_result s.now s.world c o with
  | store j' res hw =>
    rw [hw]
    by_cases hj : j = j'
    · subst hj
      refine .inr ⟨res, rfl, rfl, ?_⟩
      rw [Function.update_self]
      exact fetch_setEx s.now res (by decide)
    · rw [Function.update_of_ne hj]
      refine .inl ⟨rfl, fun _ res' heq => ?_⟩
      cases heq
      exact hj rfl
  | other hc hw =>
    rw [hw]
    exact .inl ⟨rfl, fun _ res => hc j res⟩

/-! ### A store in progress -/

/-- A store in progress has just written its result, or has just read the record. -/
theorem midStore_cases {t : Trace} {r : ExecutionResult} (h : midStore t = some (j, r)) :
    t.head?.bind storedOf = some (j, r) ∨ ∃ old, t.head?.bind readOf = some (j, old) := by
  cases t with
  | nil => cases h
  | cons e t =>
    rcases Option.or_eq_some_iff.mp h with hs | ⟨-, hr⟩
    · exact .inl hs
    · obtain ⟨⟨j', old⟩, hread, hy⟩ := Option.bind_eq_some_iff.mp hr
      obtain ⟨-, hj⟩ := Option.filter_eq_some_iff.mp hy
      obtain rfl : j' = j := of_decide_eq_true hj
      exact .inr ⟨old, hread⟩

/-- A process that is in a store after its command was answered was in it before, or the command
wrote the result. -/
theorem midStore_resume {p : Process Cmd Reply Exc Role} {c : Cmd} {r : Except Exc (Reply c)}
    {res : ExecutionResult} (h : midStore (⟨c, r⟩ :: p.trace) = some (j, res)) :
    storedOf ⟨c, r⟩ = some (j, res) ∨ midStore p.trace = some (j, res) := by
  rcases Option.or_eq_some_iff.mp h with hs | ⟨-, hr⟩
  · exact .inl hs
  · obtain ⟨x, -, hy⟩ := Option.bind_eq_some_iff.mp hr
    obtain ⟨hstored, -⟩ := Option.filter_eq_some_iff.mp hy
    refine .inr ?_
    cases ht : p.trace with
    | nil =>
      rw [ht] at hstored
      cases hstored
    | cons e t =>
      rw [ht] at hstored
      exact Option.or_eq_some_iff.mpr (.inl hstored)

/-- The record that a store writes agrees with its result. -/
theorem store_writes {s : Sys} (hs : (system d).Reachable s) {p : Process Cmd Reply Exc Role}
    (hp : p ∈ s.procs) {c : Cmd} (hnext : p.next = some c) {record : JobRecord}
    (hc : recordWrite c = some (j, record)) {r : ExecutionResult}
    (hmid : midStore p.trace = some (j, r)) : Agrees record r := by
  obtain ⟨old, hread, hrew⟩ := read_of_recordWrite hs hp hnext hc
  cases hrew with
  | cancel principal hrole hterm =>
    obtain ⟨k, hk⟩ := Process.next_eq_some.mp hnext
    obtain ⟨record', rfl⟩ := (reachable_allows hs hp hk).1.2 j r old hmid hread
    obtain ⟨⟨w, m, hworker, -⟩, -⟩ := (reachable_allows hs hp hk).2
    rw [hrole] at hworker
    cases hworker
  | running w hj hnone =>
    rw [hnone] at hmid
    cases hmid
  | terminal r' w hj hmid' =>
    rw [hmid'] at hmid
    cases hmid
    exact ⟨rfl, rfl⟩

/-- **A store goes on**, when its command gets its reply: it stays in progress, it finds no record,
or it writes a record that agrees with the result. -/
theorem store_continues {s : Sys} (hs : (system d).Reachable s) {p : Process Cmd Reply Exc Role}
    (hp : p ∈ s.procs) {c : Cmd} {k : Except Exc (Reply c) → Prog Unit} (hk : p.prog = .call c k)
    {res : ExecutionResult} (hmid : midStore p.trace = some (j, res)) (o : Oracle) :
    midStore (p.resume c k (.ok (World.exec s.now s.world c o).2)).trace = some (j, res) ∨
    fetch s.now ((World.exec s.now s.world c o).1.record j) = none ∨
    ∃ record, fetch s.now ((World.exec s.now s.world c o).1.record j) = some record ∧
      Agrees record res := by
  rcases midStore_cases hmid with hstored | ⟨old, hread⟩
  · obtain rfl := (reachable_allows hs hp hk).1.1 j res hstored
    cases hrec : fetch s.now (s.world.record j) with
    | none => exact .inr (.inl hrec)
    | some old =>
      refine .inl ?_
      have hval : (World.exec s.now s.world (.getRecord j) o).2 = (some old : Option JobRecord) :=
        hrec
      rw [hval]
      exact midStore_read old hstored
  · obtain ⟨record, rfl⟩ := (reachable_allows hs hp hk).1.2 j res old hmid hread
    refine .inr (.inr ⟨record, ?_, ?_⟩)
    · change fetch s.now (Function.update s.world.record j _ j) = some record
      rw [Function.update_self]
      exact fetch_setKeepTtl s.now _ record
    · exact store_writes hs hp (Process.next_eq_some.mpr ⟨k, hk⟩) rfl hmid

/-! ### The invariant -/

section Answer

variable {s : Sys} {i : ℕ} {ans : Answer Exc Oracle} {p : Process Cmd Reply Exc Role} {c : Cmd}
  {k : Except Exc (Reply c) → Prog Unit} {w : World} {r : Except Exc (Reply c)} {b : Bool}

/-- A process other than the answered one is still there. -/
theorem mem_after_of_ne {n : ℕ} {q : Process Cmd Reply Exc Role} (hn : s.procs[n]? = some q)
    (hne : n ≠ i) : q ∈ ((system d).after s i p c k w r b).procs := by
  refine List.mem_append_left _ (List.mem_of_getElem? (i := n) ?_)
  rw [List.getElem?_set_ne (Ne.symm hne)]
  exact hn

theorem mem_after_self (hi : s.procs[i]? = some p) :
    p.resume c k r ∈ ((system d).after s i p c k w r b).procs := by
  refine List.mem_append_left _ (List.mem_of_getElem? (i := i) ?_)
  rw [List.getElem?_set_self (List.getElem?_eq_some_iff.mp hi).1]

/-- The write of a result opens a store of it. -/
theorem agreementOk_store (hi : s.procs[i]? = some p) {res : ExecutionResult}
    {k : Except Exc (Reply (.setResult j res)) → Prog Unit}
    (hclear : ∀ q ∈ s.procs, ∀ r', midStore q.trace ≠ some (j, r'))
    (hfetch : fetch s.now (w.result j) = some res) :
    AgreementOk j ((system d).after s i p (.setResult j res) k w (.ok ()) true) := by
  have hresume : midStore (p.resume (.setResult j res) k (.ok ())).trace = some (j, res) := rfl
  have hresult : ∀ r', fetch s.now (w.result j) = some r' → res = r' := fun r' hr' =>
    Option.some.inj (hfetch.symm.trans hr')
  refine ⟨fun q hq r' hmid r hr => ?_, fun r record hr _ => .inr ⟨_, mem_after_self hi, ?_⟩⟩
  · rcases System.mem_procs_after hq with rfl | hq | hq
    · rw [hresume] at hmid
      cases hmid
      exact hresult r hr
    · exact absurd hmid (hclear q hq r')
    · obtain ⟨x, -, rfl⟩ := System.mem_forked hq
      cases hmid
  · rw [hresume, hresult r hr]

/-- Another command leaves every store with the present result. -/
theorem latest_after (hok : AgreementOk j s) (hi : s.procs[i]? = some p)
    (hsame : fetch s.now (w.result j) = resultOf s j) (hno : ∀ res, storedOf ⟨c, r⟩ ≠ some (j, res)) :
    ∀ q ∈ ((system d).after s i p c k w r b).procs, ∀ r', midStore q.trace = some (j, r') →
      ∀ res, fetch s.now (w.result j) = some res → r' = res := by
  intro q hq r' hmid res hres
  rw [hsame] at hres
  rcases System.mem_procs_after hq with rfl | hq | hq
  · rcases midStore_resume hmid with hstored | hmid
    · exact absurd hstored (hno r')
    · exact hok.latest p (List.mem_of_getElem? hi) r' hmid res hres
  · exact hok.latest q hq r' hmid res hres
  · obtain ⟨x, -, rfl⟩ := System.mem_forked hq
    cases hmid

/-- A store that was in progress is so still, or it has left a record that agrees, or none. -/
theorem store_after (hs : (system d).Reachable s) (hi : s.procs[i]? = some p)
    (hk : p.prog = .call c k) (hr : (system d).respond s.now s.world c ans = some (w, r, b))
    (hcomplete : StoresComplete j s (.answer i ans)) {q : Process Cmd Reply Exc Role}
    (hq : q ∈ s.procs) {res : ExecutionResult} (hmid : midStore q.trace = some (j, res))
    {record : JobRecord} (hrec : fetch s.now (w.record j) = some record) :
    Agrees record res ∨
      ∃ q ∈ ((system d).after s i p c k w r b).procs, midStore q.trace = some (j, res) := by
  obtain ⟨n, hn⟩ := List.mem_iff_getElem?.mp hq
  by_cases hne : n = i
  · subst hne
    obtain rfl : p = q := Option.some.inj (hi.symm.trans hn)
    obtain ⟨o, rfl⟩ := hcomplete.replied n ans p res rfl hi hmid
    cases hr
    rcases store_continues hs hq hk hmid o with hstill | hnone | ⟨record', hrec', hagrees⟩
    · exact .inr ⟨_, mem_after_self hi, hstill⟩
    · cases hnone.symm.trans hrec
    · obtain rfl : record' = record := Option.some.inj (hrec'.symm.trans hrec)
      exact .inl hagrees
  · exact .inr ⟨q, mem_after_of_ne hn hne, hmid⟩

/-- Another command leaves the record in agreement with the result, or a store of it in progress. -/
theorem agree_after (hs : (system d).Reachable s) (hok : AgreementOk j s)
    (hi : s.procs[i]? = some p) (hk : p.prog = .call c k)
    (hr : (system d).respond s.now s.world c ans = some (w, r, b))
    (hcomplete : StoresComplete j s (.answer i ans)) (hapart : StoresApart j s (.answer i ans))
    (hsame : fetch s.now (w.result j) = resultOf s j) :
    ∀ res record, fetch s.now (w.result j) = some res → fetch s.now (w.record j) = some record →
      Agrees record res ∨
        ∃ q ∈ ((system d).after s i p c k w r b).procs, midStore q.trace = some (j, res) := by
  intro res record hres hrec
  rw [hsame] at hres
  have ha : (system d).Answered s (.answer i ans) p c w r b := ⟨⟨i, ans, rfl, hi, hr⟩, k, hk⟩
  have hnext : p.next = some c := Process.next_eq_some.mpr ⟨k, hk⟩
  have hstore : (∃ q ∈ s.procs, midStore q.trace = some (j, res)) → Agrees record res ∨
      ∃ q ∈ ((system d).after s i p c k w r b).procs, midStore q.trace = some (j, res) := by
    rintro ⟨q, hq, hmid⟩
    exact store_after hs hi hk hr hcomplete hq hmid hrec
  cases recordOf_answered hs ha j with
  | same h => exact (hok.agree res record hres (h ▸ hrec)).elim .inl hstore
  | written record' hc h =>
    obtain rfl : record' = record := Option.some.inj (h.symm.trans hrec)
    by_cases hmid : ∃ r', midStore p.trace = some (j, r')
    · obtain ⟨r', hmid⟩ := hmid
      obtain rfl := hok.latest p ha.mem r' hmid res hres
      exact .inl (store_writes hs ha.mem hnext hc hmid)
    · have hnot : ∀ r', midStore p.trace ≠ some (j, r') := fun r' h' => hmid ⟨r', h'⟩
      exact (hapart.overwrite p c record' ha.next_eq hc hnot res hres).elim .inl hstore
  | created payload record' hc hj hnone h hpending =>
    subst hc hj
    rw [result_none_of_enqueue hs ha.mem hnext] at hres
    cases hres

/-- One answered command keeps the invariant. -/
theorem agreementOk_answer (hs : (system d).Reachable s) (hok : AgreementOk j s)
    (hi : s.procs[i]? = some p) (hk : p.prog = .call c k)
    (hr : (system d).respond s.now s.world c ans = some (w, r, b))
    (hcomplete : StoresComplete j s (.answer i ans)) (hapart : StoresApart j s (.answer i ans)) :
    AgreementOk j ((system d).after s i p c k w r b) := by
  have ha : (system d).Answered s (.answer i ans) p c w r b := ⟨⟨i, ans, rfl, hi, hr⟩, k, hk⟩
  rcases resultOf_answered ha j with ⟨hsame, hno⟩ | ⟨res, rfl, rfl, hfetch⟩
  · refine ⟨latest_after hok hi hsame fun res hstored => ?_,
      agree_after hs hok hi hk hr hcomplete hapart hsame⟩
    obtain ⟨rfl, hrep⟩ := Event.mk.inj (storedOf_eq_some hstored)
    cases hrep
    have hb : b = true := by
      cases System.responds_of_respond hr
      rfl
    exact hno hb res rfl
  · have hnext : p.next = some (.setResult j res) := Process.next_eq_some.mpr ⟨k, hk⟩
    cases ans with
    | reply o =>
      cases hr
      exact agreementOk_store hi (hapart.overlap p res ha.next_eq) hfetch
    | lost e => cases hr
    | unheard e o => exact absurd rfl (hcomplete.heard i _ p res rfl hi hnext e o)

end Answer

/-- **The record agrees with the result or a store of it is in progress.** -/
theorem agreementOk_run {s : Sys} (hrun : (system d).Run
    (fun s a => StoresComplete j s a ∧ StoresApart j s a) (system d).start s) :
    AgreementOk j s := by
  have hinit : AgreementOk j (system d).start :=
    ⟨fun q hq => absurd hq List.not_mem_nil, fun r record hr => by cases hr⟩
  refine System.Run.invariant_reachable hrun .refl ?_ hinit
  rintro t a t' ht hok ⟨hcomplete, hapart⟩ hst
  cases System.step_cases hst with
  | arrive q hq =>
    refine ⟨fun q' hq' r' hmid r hr => ?_, fun r record hr hrec => ?_⟩
    · rcases List.mem_append.mp hq' with hq' | hq'
      · exact hok.latest q' hq' r' hmid r hr
      · rw [List.mem_singleton.mp hq'] at hmid
        cases hmid
    · refine (hok.agree r record hr hrec).imp_right ?_
      rintro ⟨q', hq', hmid⟩
      exact ⟨q', List.mem_append_left _ hq', hmid⟩
  | answer i ans p c k w r b hi hp hr => exact agreementOk_answer ht hok hi hp hr hcomplete hapart
  | crash i hi =>
    refine ⟨fun q hq => hok.latest q (List.mem_of_mem_eraseIdx hq), fun r record hr hrec => ?_⟩
    refine (hok.agree r record hr hrec).imp_right ?_
    rintro ⟨q, hq, hmid⟩
    obtain ⟨n, hn⟩ := List.mem_iff_getElem?.mp hq
    have hne : n ≠ i := fun heq => hcomplete.crash i q r rfl (heq ▸ hn) hmid
    exact ⟨q, List.mem_eraseIdx_iff_getElem?.mpr ⟨n, hne, hn⟩, hmid⟩
  | tick n =>
    have hlater : t.now ≤ t.now + n := Nat.le_add_right _ _
    exact ⟨fun q hq r' hmid r hr => hok.latest q hq r' hmid r (fetch_later hlater hr),
      fun r record hr hrec => hok.agree r record (fetch_later hlater hr) (fetch_later hlater hrec)⟩

/-- **The record and the result agree**, in the runs whose stores are complete and stay apart from
the other rewrites, whenever both exist and no store is between its two writes. -/
theorem record_agrees {s : Sys} (hrun : (system d).Run
      (fun s a => StoresComplete j s a ∧ StoresApart j s a) (system d).start s)
    (hidle : ∀ p ∈ s.procs, ∀ r, midStore p.trace ≠ some (j, r)) {r : ExecutionResult}
    {record : JobRecord} (hr : resultOf s j = some r) (hrec : recordOf s j = some record) :
    record.status = r.status ∧ record.result = some r := by
  refine ((agreementOk_run hrun).agree r record hr hrec).resolve_right ?_
  rintro ⟨q, hq, hmid⟩
  exact hidle q hq r hmid

/-! ### Runs of the sample job -/

/-- A store of the job is in progress. -/
def storing (j : Str) (p : Process Cmd Reply Exc Role) : Bool :=
  (midStore p.trace).any fun x => x.1 == j

theorem storing_of_midStore {p : Process Cmd Reply Exc Role} {r : ExecutionResult}
    (h : midStore p.trace = some (j, r)) : storing j p = true := by
  simp [storing, h]

/-- The test for `StoresComplete`. -/
def storesComplete (j : Str) (s : Sys) : Act → Bool
  | .crash i => s.procs[i]?.all fun p => !storing j p
  | .answer i ans => s.procs[i]?.all fun p =>
    match ans with
    | .reply _ => true
    | _ => !storing j p && !(p.next.any fun c => c.stores j)
  | _ => true

theorem storesComplete_sound {s : Sys} {a : Act} (h : storesComplete j s a = true) :
    StoresComplete j s a := by
  refine ⟨?_, ?_, ?_⟩
  · rintro i p r rfl hi hmid
    simp [storesComplete, hi, storing_of_midStore hmid] at h
  · rintro i ans p r rfl hi hmid
    cases ans with
    | reply o => exact ⟨o, rfl⟩
    | lost e => simp [storesComplete, hi, storing_of_midStore hmid] at h
    | unheard e o => simp [storesComplete, hi, storing_of_midStore hmid] at h
  · rintro i ans p r rfl hi hnext e o rfl
    simp [storesComplete, hi, hnext, Cmd.stores] at h

/-- The test for `StoresApart`; it takes a live result for a disagreement. -/
def storesApart (j : Str) (s : Sys) (a : Act) : Bool :=
  match s.next a with
  | some (p, c) =>
    ((recordWrite c).all fun x => x.1 != j || storing j p || (resultOf s j).isNone) &&
      (!c.stores j || s.procs.all fun q => !storing j q)
  | none => true

theorem storesApart_sound {s : Sys} {a : Act} (h : storesApart j s a = true) :
    StoresApart j s a := by
  constructor
  · intro p c record hnext hc hmid r hr
    have hnot : storing j p = false := by
      cases hm : midStore p.trace with
      | none => rw [storing, hm, Option.any_none]
      | some x =>
        have hne : x.1 ≠ j := fun heq => hmid x.2 (hm.trans (congrArg some (Prod.ext heq rfl)))
        simpa [storing, hm] using hne
    simp [storesApart, hnext, hc, hnot, hr] at h
  · intro p r hnext q hq r' hmid
    have hall : ∀ x ∈ s.procs, storing j x = false := by
      simpa [storesApart, hnext, Cmd.stores, recordWrite] using h
    exact absurd (storing_of_midStore hmid) (Bool.eq_false_iff.mp (hall q hq))

/-- The sample job is cancelled while it runs, before its result is stored. -/
def cancelBeforeStore : List Act :=
  submitSample ++ completeSample.take 11 ++
  [.arrive (.deleteJob anna sampleId), ok 3, ok 3] ++ completeSample.drop 11

/-- The store replaces the record that the `DELETE` had marked. -/
theorem record_agrees_sample :
    ∃ s : Sys, (system .default).Run
        (fun s a => StoresComplete sampleId s a ∧ StoresApart sampleId s a) (system .default).start s ∧
      ∃ r record, resultOf s sampleId = some r ∧ recordOf s sampleId = some record ∧
        record.status = r.status ∧ record.result = some r := by
  have hrun : (system .default).Run
      (fun s a => StoresComplete sampleId s a ∧ StoresApart sampleId s a) (system .default).start
      (sampleRun cancelBeforeStore) :=
    System.run_of_test (fun s a => storesComplete sampleId s a && storesApart sampleId s a)
      (fun _ _ h => ⟨storesComplete_sound (Bool.and_eq_true_iff.mp h).1,
        storesApart_sound (Bool.and_eq_true_iff.mp h).2⟩) _ (by decide +kernel)
  have hidle : ∀ p ∈ (sampleRun cancelBeforeStore).procs, storing sampleId p ≠ true := by
    decide +kernel
  obtain ⟨r, hr⟩ := Option.isSome_iff_exists.mp
    (show (resultOf (sampleRun cancelBeforeStore) sampleId).isSome = true by decide +kernel)
  obtain ⟨record, hrec⟩ := Option.isSome_iff_exists.mp
    (show (recordOf (sampleRun cancelBeforeStore) sampleId).isSome = true by decide +kernel)
  refine ⟨_, hrun, r, record, hr, hrec, record_agrees hrun (fun p hp r' hmid => ?_) hr hrec⟩
  exact hidle p hp (storing_of_midStore hmid)

/-- A `DELETE` reads the record of the running sample job, the worker stores the result, and the
`DELETE` writes; then all programs run to their ends. -/
def cancelAcrossStore : List Act :=
  submitSample ++ [ok 0] ++ completeSample.take 11 ++
  [.arrive (.deleteJob anna sampleId), ok 3] ++ completeSample.drop 11 ++ [ok 3, ok 3, ok 3]

/-- The record says that the job was killed and has no result; the stored result says that it
completed. No command failed and no program is left with a command to issue. -/
theorem record_disagrees :
    ∃ s : Sys, (system .default).Run (StoresComplete sampleId) (system .default).start s ∧
      (∀ p ∈ s.procs, p.next = none) ∧
      ∃ r record, resultOf s sampleId = some r ∧ recordOf s sampleId = some record ∧
        r.status = .completed ∧ record.status = .killed ∧ record.result = none := by
  have hrun : (system .default).Run (StoresComplete sampleId) (system .default).start
      (sampleRun cancelAcrossStore) :=
    System.run_of_test (storesComplete sampleId) (fun _ _ => storesComplete_sound) _
      (by decide +kernel)
  have hdone : ∀ p ∈ (sampleRun cancelAcrossStore).procs, p.next.isNone = true := by
    decide +kernel
  obtain ⟨r, hr, hcompleted⟩ := Option.map_eq_some_iff.mp (show
    (resultOf (sampleRun cancelAcrossStore) sampleId).map ExecutionResult.status =
      some .completed by decide +kernel)
  obtain ⟨record, hrec, hkilled⟩ := Option.map_eq_some_iff.mp (show
    (recordOf (sampleRun cancelAcrossStore) sampleId).map (fun x => (x.status, x.result)) =
      some (.killed, none) by decide +kernel)
  obtain ⟨hstatus, hresult⟩ := Prod.mk.inj hkilled
  exact ⟨_, hrun, fun p hp => Option.isNone_iff_eq_none.mp (hdone p hp), r, record, hr, hrec,
    hcompleted, hstatus, hresult⟩

end CodeInterpreter
