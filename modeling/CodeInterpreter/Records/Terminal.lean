import CodeInterpreter.Records.Writes

/-!
# Terminal states

`DELETE`, `set_running` and `store_terminal` rewrite the record of a job with a separate read and
write, and only `DELETE` looks at the status it has read. A terminal status is lost when one of
the worker's two functions reads the terminal record of a job and writes another status, or when a
write makes the record terminal while another program stands between its read and its write. When
neither happens, terminal states are absorbing.

## Main definitions

* `Isolated`: the step does neither.
* `PendingAgree`: every write that is about to happen agrees with a terminal record.

## Main results

* `pendingAgree_run`: the invariant of the runs with isolated rewrites.
* `terminal_absorbing`: in these runs a terminal record keeps its status while it exists.
* `terminal_overwritten`: a run in which a cancelled job is seen as running again.
-/

namespace CodeInterpreter

open Async

variable {d : Deployment} {j : Str}

/-- The step does not let a rewrite of the record lose a terminal status. A run of `_process` that
reads a terminal record is in `store_terminal`, with a result of that status (`read`); and when a
terminal record is written, no other program that has read the record is about to write another
status (`write`). -/
structure Isolated (j : Str) (s : Sys) (a : Act) : Prop where
  read : ∀ p, s.next a = some (p, .getRecord j) → (∃ w m, p.role = .delivery w m) →
    ∀ old, recordOf s j = some old → old.status.Terminal →
      ∃ r, p.trace.head?.bind storedOf = some (j, r) ∧ r.status = old.status
  write : ∀ i ans p c record, a = .answer i ans → s.procs[i]? = some p → p.next = some c →
    recordWrite c = some (j, record) → record.status.Terminal →
    ∀ i' q c' record', i' ≠ i → s.procs[i']? = some q → q.next = some c' →
      recordWrite c' = some (j, record') → record'.status = record.status

/-- Every write that is about to happen agrees with a terminal record. -/
def PendingAgree (j : Str) (s : Sys) : Prop :=
  ∀ q ∈ s.procs, ∀ c record, q.next = some c → recordWrite c = some (j, record) →
    ∀ old, recordOf s j = some old → old.status.Terminal → record.status = old.status

/-- A process that has just read a terminal record writes the same status. -/
theorem resume_agrees {s s' : Sys} {i : ℕ} {ans : Answer Exc Oracle} {p : Process Cmd Reply Exc Role}
    {c : Cmd} {k : Except Exc (Reply c) → Prog Unit} {w : World} {r : Except Exc (Reply c)} {b : Bool}
    (hs' : (system d).Reachable s') (hmem : p.resume c k r ∈ s'.procs)
    (ha : (system d).Answered s (.answer i ans) p c w r b)
    (hiso : Isolated j s (.answer i ans)) {c' : Cmd} {record : JobRecord}
    (hnext : (p.resume c k r).next = some c') (hc' : recordWrite c' = some (j, record))
    {old : JobRecord} (hold : fetch s.now (w.record j) = some old) (hterm : old.status.Terminal) :
    record.status = old.status := by
  obtain ⟨seen, hread, hrew⟩ := read_of_recordWrite hs' hmem hnext hc'
  obtain ⟨rfl, rfl, hfetch⟩ := readOf_answered ha hread
  obtain rfl : seen = old := Option.some.inj (hfetch.symm.trans hold)
  -- a worker that reads the terminal record is storing a result of the same status
  have hstore : HandlesJob d p.role j → ∃ res, midStore (p.resume _ k r).trace = some (j, res) ∧
      res.status = seen.status := by
    rintro ⟨wid, m, hrole, -⟩
    obtain ⟨res, hhead, hstatus⟩ := hiso.read p ha.next_eq ⟨wid, m, hrole⟩ seen hfetch hterm
    refine ⟨res, ?_, hstatus⟩
    rw [Process.resume, readOf_eq_some hread]
    exact midStore_read seen hhead
  cases hrew with
  | cancel principal hrole hnot => exact absurd hterm hnot
  | running wid hj hmid =>
    obtain ⟨res, hsome, -⟩ := hstore hj
    rw [hmid] at hsome
    cases hsome
  | terminal res wid hj hmid =>
    obtain ⟨res', hsome, hstatus⟩ := hstore hj
    rw [hmid] at hsome
    cases hsome
    exact hstatus

/-- **Isolated rewrites agree with terminal records.** -/
theorem pendingAgree_run {s : Sys} (hrun : (system d).Run (Isolated j) (system d).start s) :
    PendingAgree j s := by
  refine System.Run.invariant_reachable hrun .refl ?_ fun q hq => absurd hq List.not_mem_nil
  intro t a t' ht ih hiso hst
  have ht' : (system d).Reachable t' := .step ht a trivial hst
  intro q hq c' record hnext hc' old hold hterm
  have htrace : q.trace ≠ [] := trace_ne_nil_of_recordWrite ht' hq
    (Option.bind_eq_some_iff.mpr ⟨c', hnext, hc'⟩)
  cases System.step_cases hst with
  | arrive q' hq' =>
    rcases List.mem_append.mp hq with hq | hq
    · exact ih q hq c' record hnext hc' old hold hterm
    · rw [List.mem_singleton.mp hq] at htrace
      exact absurd rfl htrace
  | answer i ans p c k w r b hi hp hr =>
    have ha : (system d).Answered t (.answer i ans) p c w r b := ⟨⟨i, ans, rfl, hi, hr⟩, k, hp⟩
    change fetch t.now (w.record j) = some old at hold
    obtain ⟨n, hn⟩ := List.mem_iff_getElem?.mp hq
    rcases System.getElem?_procs_after hn with ⟨-, rfl⟩ | ⟨hne, hother⟩ | hforked
    · exact resume_agrees ht' hq ha hiso hnext hc' hold hterm
    · cases recordOf_answered ht ha j with
      | same hsame =>
        exact ih q (List.mem_of_getElem? hother) c' record hnext hc' old (hsame ▸ hold) hterm
      | written rec' hc hnew =>
        obtain rfl : rec' = old := Option.some.inj (hnew.symm.trans hold)
        exact hiso.write i ans p c rec' rfl hi (Process.next_eq_some.mpr ⟨k, hp⟩) hc hterm
          n q c' record hne hother hnext hc'
      | created payload rec' hc hj hnone hnew hpending =>
        obtain rfl : rec' = old := Option.some.inj (hnew.symm.trans hold)
        rw [hpending] at hterm
        exact absurd hterm not_terminal_pending
    · obtain ⟨x, -, rfl⟩ := System.mem_forked hforked
      exact absurd rfl htrace
  | crash i hi => exact ih q (List.mem_of_mem_eraseIdx hq) c' record hnext hc' old hold hterm
  | tick n =>
    exact ih q hq c' record hnext hc' old (fetch_later (Nat.le_add_right _ _) hold) hterm

/-- One step with isolated rewrites keeps the status of a terminal record, unless the record
expires. -/
theorem status_step {s s' : Sys} (hs : (system d).Reachable s) (hagree : PendingAgree j s) {a : Act}
    (hst : (system d).step s a = some s') {old new : JobRecord} (hold : recordOf s j = some old)
    (hterm : old.status.Terminal) (hnew : recordOf s' j = some new) : new.status = old.status := by
  have hsame : recordOf s j = some new → new.status = old.status := fun h =>
    congrArg JobRecord.status (Option.some.inj (h.symm.trans hold))
  cases System.step_cases hst with
  | arrive q hq => exact hsame hnew
  | answer i ans p c k w r b hi hp hr =>
    have ha : (system d).Answered s (.answer i ans) p c w r b := ⟨⟨i, ans, rfl, hi, hr⟩, k, hp⟩
    change fetch s.now (w.record j) = some new at hnew
    cases recordOf_answered hs ha j with
    | same h => exact hsame (h ▸ hnew)
    | written record hc h =>
      obtain rfl : record = new := Option.some.inj (h.symm.trans hnew)
      exact hagree p ha.mem c record (Process.next_eq_some.mpr ⟨k, hp⟩) hc old hold hterm
    | created payload record hc hj hnone h hpending =>
      rw [recordOf, hnone] at hold
      cases hold
  | crash i hi => exact hsame hnew
  | tick n => exact hsame (fetch_later (Nat.le_add_right _ _) hnew)

/-- **Terminal states are absorbing** in the runs whose rewrites are isolated: once a read of the
record of a job shows a terminal status, every later read shows the same one, as long as the
record exists all the while. -/
theorem terminal_absorbing {s₁ s₂ : Sys} (h₁ : (system d).Run (Isolated j) (system d).start s₁)
    (h₂ : (system d).Run (fun s a => Isolated j s a ∧ (recordOf s j).isSome = true) s₁ s₂)
    {r₁ r₂ : JobRecord} (hr₁ : recordOf s₁ j = some r₁) (hterm : r₁.status.Terminal)
    (hr₂ : recordOf s₂ j = some r₂) : r₂.status = r₁.status := by
  have hinv : (system d).Run (Isolated j) (system d).start s₂ ∧
      ∀ r, recordOf s₂ j = some r → r.status = r₁.status := by
    refine System.Run.invariant (I := fun s => (system d).Run (Isolated j) (system d).start s ∧
      ∀ r, recordOf s j = some r → r.status = r₁.status) h₂ ?_ ⟨h₁, fun r hr => ?_⟩
    · rintro s a s' ⟨hrun, ih⟩ ⟨hiso, hexists⟩ hst
      refine ⟨.step hrun a hiso hst, fun r hr => ?_⟩
      obtain ⟨old, hold⟩ := Option.isSome_iff_exists.mp hexists
      have hstatus := ih old hold
      rw [← hstatus]
      exact status_step (hrun.mono fun _ _ _ => trivial) (pendingAgree_run hrun) hst hold
        (hstatus ▸ hterm) hr
    · exact congrArg JobRecord.status (Option.some.inj (hr.symm.trans hr₁))
  exact hinv.2 r₂ hr₂

/-! ### Runs of the sample job -/

/-- The record that the next command of a process rewrites. -/
def pendingWrite (s : Sys) (i : ℕ) : Option (Str × JobRecord) :=
  (s.procs[i]?.bind Process.next).bind recordWrite

theorem pendingWrite_eq {s : Sys} {i : ℕ} {p : Process Cmd Reply Exc Role} {c : Cmd}
    (hi : s.procs[i]? = some p) (hnext : p.next = some c) : pendingWrite s i = recordWrite c := by
  simp only [pendingWrite, hi, hnext, Option.bind_some]

/-- The test for `Isolated`. -/
def isolated (j : Str) (s : Sys) (a : Act) : Bool :=
  (match s.next a with
    | some (p, .getRecord j') =>
      j' != j || !p.role.isDelivery || (recordOf s j).all fun old =>
        !decide old.status.Terminal || (p.trace.head?.bind storedOf).any fun x =>
          x.1 == j && x.2.status == old.status
    | _ => true) &&
  match a with
    | .answer i _ => (pendingWrite s i).all fun x =>
      x.1 != j || !decide x.2.status.Terminal || (List.range s.procs.length).all fun i' =>
        i' == i || (pendingWrite s i').all fun y => y.1 != j || y.2.status == x.2.status
    | _ => true

theorem isolated_sound {s : Sys} {a : Act} (h : isolated j s a = true) : Isolated j s a := by
  obtain ⟨hread, hwrite⟩ := Bool.and_eq_true_iff.mp h
  constructor
  · rintro p hnext ⟨w, m, hrole⟩ old hold hterm
    have hany : (p.trace.head?.bind storedOf).any
        (fun x => x.1 == j && x.2.status == old.status) = true := by
      simpa [hnext, hrole, Role.isDelivery, hold, hterm] using hread
    obtain ⟨⟨j', r⟩, hx, heq⟩ := (Option.any_eq_true _ _).mp hany
    obtain ⟨rfl, hstatus⟩ : j' = j ∧ r.status = old.status := by simpa using heq
    exact ⟨r, hx, hstatus⟩
  · rintro i ans p c record rfl hi hnext hc hterm i' q c' record' hne hi' hnext' hc'
    have hall := hwrite
    simp only [pendingWrite_eq hi hnext, hc, Option.all_some, bne_self_eq_false, hterm,
      decide_true, Bool.not_true, Bool.false_or, List.all_eq_true, List.mem_range] at hall
    have hlt : i' < s.procs.length := (List.getElem?_eq_some_iff.mp hi').1
    simpa [pendingWrite_eq hi' hnext', hc', hne] using hall i' hlt

/-- The sample job is submitted and completes, up to the write of its terminal record. -/
def untilTerminal : List Act := submitSample ++ completeSample.take 15

/-- A completed job stays completed while the worker finishes. -/
theorem terminal_absorbing_sample :
    ∃ s₁ s₂ : Sys, (system .default).Run (Isolated sampleId) (system .default).start s₁ ∧
      ∃ r₁ r₂, recordOf s₁ sampleId = some r₁ ∧ r₁.status = .completed ∧
        recordOf s₂ sampleId = some r₂ ∧ r₂.status = r₁.status := by
  have h₁ : (system .default).Run (Isolated sampleId) (system .default).start
      (sampleRun untilTerminal) :=
    System.run_of_test (isolated sampleId) (fun _ _ => isolated_sound) untilTerminal
      (by decide +kernel)
  have h₂ : (system .default).Run
      (fun s a => Isolated sampleId s a ∧ (recordOf s sampleId).isSome = true)
      (sampleRun untilTerminal)
      ((system .default).run (sampleRun untilTerminal) (completeSample.drop 15)) :=
    System.run_of_test (fun s a => isolated sampleId s a && (recordOf s sampleId).isSome)
      (fun _ _ h => ⟨isolated_sound (Bool.and_eq_true_iff.mp h).1, (Bool.and_eq_true_iff.mp h).2⟩)
      _ (by decide +kernel)
  obtain ⟨r₁, hr₁, hstatus⟩ := Option.map_eq_some_iff.mp (show
    (recordOf (sampleRun untilTerminal) sampleId).map JobRecord.status = some .completed by
      decide +kernel)
  obtain ⟨r₂, hr₂⟩ := Option.isSome_iff_exists.mp (show (recordOf ((system .default).run
    (sampleRun untilTerminal) (completeSample.drop 15)) sampleId).isSome = true by decide +kernel)
  refine ⟨_, _, h₁, r₁, r₂, hr₁, hstatus, hr₂, terminal_absorbing h₁ h₂ hr₁ ?_ hr₂⟩
  rw [hstatus]
  decide

/-- A worker finds the sample job not cancelled; then its `DELETE` is carried out. -/
def cancelAfterCheck : List Act :=
  submitSample ++ completeSample.take 6 ++ [.arrive (.deleteJob anna sampleId), ok 3, ok 3]

/-- The worker goes on with `set_running`: a job that was seen cancelled is seen running. -/
theorem terminal_overwritten :
    ∃ s₁ s₂ : Sys, (system .default).Reachable s₁ ∧
      (system .default).Run (fun s _ => (recordOf s sampleId).isSome = true) s₁ s₂ ∧
      ∃ r₁ r₂, recordOf s₁ sampleId = some r₁ ∧ r₁.status.Terminal ∧
        recordOf s₂ sampleId = some r₂ ∧ r₂.status = .running := by
  have hreach := reachable_sampleRun cancelAfterCheck (by decide +kernel)
  have hrun : (system .default).Run (fun s _ => (recordOf s sampleId).isSome = true)
      (sampleRun cancelAfterCheck)
      ((system .default).run (sampleRun cancelAfterCheck) [ok 2, ok 2, ok 2]) :=
    System.run_of_test (fun s _ => (recordOf s sampleId).isSome) (fun _ _ h => h) _
      (by decide +kernel)
  obtain ⟨r₁, hr₁, hkilled⟩ := Option.map_eq_some_iff.mp (show
    (recordOf (sampleRun cancelAfterCheck) sampleId).map JobRecord.status = some .killed by
      decide +kernel)
  obtain ⟨r₂, hr₂, hrunning⟩ := Option.map_eq_some_iff.mp (show
    (recordOf ((system .default).run (sampleRun cancelAfterCheck) [ok 2, ok 2, ok 2])
      sampleId).map JobRecord.status = some .running by decide +kernel)
  refine ⟨_, _, hreach, hrun, r₁, r₂, hr₁, ?_, hr₂, hrunning⟩
  rw [hkilled]
  decide

end CodeInterpreter
