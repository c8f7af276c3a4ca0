import CodeInterpreter.Records.Writes

/-!
# Records expire

The enqueue gives the record of a job its lifetime, and the two other writers, `patch_record` and
`DELETE`, write with `KEEPTTL` what they have made of an earlier read. A record that expires between
the read and the write is created anew by the write, without an expiry.

## Main definitions

* `RecordsExpire`: every record that exists has an expiry.
* `FindsRecord`: a rewrite that takes effect finds the record it rewrites.

## Main results

* `recordsBounded_step_iff`: a rewrite keeps the expiries exactly if it finds its record.
* `records_expire`: when all rewrites find their records, every record expires.
* `record_forever`: a run in which a worker's `SET` comes after the record has expired.
-/

namespace CodeInterpreter

open Async

variable {d : Deployment} {s : Sys}

/-- Every record that exists at the moment has an expiry. -/
def RecordsExpire (s : Sys) : Prop :=
  ∀ j x, s.world.record j = some x → x.Live s.now → x.expiry.isSome = true

/-- The action answers a command that takes effect, whether or not its reply is heard. -/
def takesEffect : Act → Bool
  | .answer _ (.reply _) | .answer _ (.unheard _ _) => true
  | _ => false

/-- If the step carries out a `SET … KEEPTTL` of a record, the record still exists. -/
def FindsRecord (s : Sys) (a : Act) : Prop :=
  ∀ p c j record, s.next a = some (p, c) → recordWrite c = some (j, record) →
    takesEffect a = true → (recordOf s j).isSome = true

/-! ### One step -/

/-- A value written with `KEEPTTL` over one that exists keeps its expiry. -/
theorem setKeepTtl_expiry {α : Type} {now : ℕ} {old : Option (Stored α)} {x : Stored α} (v : α)
    (hold : old = some x) (hlive : x.Live now) : (setKeepTtl now old v).expiry = x.expiry := by
  subst hold
  exact if_pos hlive

/-- Written over one that does not exist, it never expires. -/
theorem setKeepTtl_missing {α : Type} {now : ℕ} {old : Option (Stored α)} (v : α)
    (hold : fetch now old = none) : (setKeepTtl now old v).expiry = none := by
  cases old with
  | none => rfl
  | some x =>
    refine if_neg fun hlive => ?_
    rw [fetch, if_pos hlive] at hold
    cases hold

/-- The history records whether a command took effect. -/
theorem takesEffect_of_answered {a : Act} {p : Process Cmd Reply Exc Role} {c : Cmd} {w : World}
    {r : Except Exc (Reply c)} {b : Bool} (ha : (system d).Answered s a p c w r b) :
    takesEffect a = b := by
  obtain ⟨i, ans, rfl, -, hr⟩ := ha.action
  cases ans with
  | reply o =>
    cases Option.some.inj hr
    rfl
  | lost e =>
    simp only [System.respond] at hr
    split_ifs at hr
    cases Option.some.inj hr
    rfl
  | unheard e o =>
    simp only [System.respond] at hr
    split_ifs at hr
    cases Option.some.inj hr
    rfl

/-- All stored records have an expiry, the expired ones included. -/
def RecordsBounded (w : World) : Prop := ∀ j x, w.record j = some x → x.expiry.isSome = true

theorem RecordsBounded.exec {w : World} (h : RecordsBounded w) {now : ℕ} {c : Cmd} (o : Oracle)
    (hfound : ∀ j record, recordWrite c = some (j, record) →
      (fetch now (w.record j)).isSome = true) : RecordsBounded (World.exec now w c o).1 := by
  cases exec_record c o with
  | enqueue payload record hw =>
    intro j x hx
    rw [hw, Function.update_apply] at hx
    split_ifs at hx with hj
    · obtain rfl := Option.some.inj hx
      rfl
    · exact h j x hx
  | write jobId record hc hw =>
    intro j x hx
    rw [hw, Function.update_apply] at hx
    split_ifs at hx with hj
    · obtain ⟨v, hv⟩ := Option.isSome_iff_exists.mp
        (hfound jobId record (recordWrite_eq_some.mpr hc))
      obtain ⟨y, hy, -, hlive⟩ := fetch_eq_some hv
      obtain rfl := Option.some.inj hx
      rw [setKeepTtl_expiry record hy hlive]
      exact h jobId y hy
    · exact h j x hx
  | other hc hw =>
    intro j x hx
    rw [hw] at hx
    exact h j x hx

/-- A rewrite that finds no record leaves one that never expires. -/
theorem record_forever_of_missing {c : Cmd} {j : Str} {record : JobRecord}
    (hc : recordWrite c = some (j, record)) (hnone : recordOf s j = none) (o : Oracle) :
    ∃ x, (World.exec s.now s.world c o).1.record j = some x ∧ x.expiry = none := by
  have hx : (World.exec s.now s.world c o).1.record j =
      some (setKeepTtl s.now (s.world.record j) record) := by
    rcases recordWrite_eq_some.mp hc with rfl | rfl <;> exact Function.update_self ..
  exact ⟨_, hx, setKeepTtl_missing record hnone⟩

/-! ### Runs -/

/-- **A rewrite keeps the expiries exactly if it finds its record.** -/
theorem recordsBounded_step_iff {a : Act} {s' : Sys} (hb : RecordsBounded s.world)
    (hst : (system d).step s a = some s') : RecordsBounded s'.world ↔ FindsRecord s a := by
  constructor
  · intro hb' p c j record hnext hc heff
    obtain ⟨i, k, w, r, b, ha, rfl⟩ := System.step_answered hnext hst
    by_contra hno
    have hnone : recordOf s j = none := by simpa using hno
    rcases answered_cases ha with ⟨-, rfl, -⟩ | ⟨o, rfl, -, -⟩
    · rw [takesEffect_of_answered ha] at heff
      cases heff
    · obtain ⟨x, hx, hexp⟩ := record_forever_of_missing hc hnone o
      have hsome := hb' j x hx
      rw [hexp] at hsome
      cases hsome
  · intro hfinds
    cases System.step_cases hst with
    | arrive q hq => exact hb
    | answer i ans p c k w r b hi hp hr =>
      have ha : (system d).Answered s (.answer i ans) p c w r b := ⟨⟨i, ans, rfl, hi, hr⟩, k, hp⟩
      rcases answered_cases ha with ⟨rfl, -, -⟩ | ⟨o, rfl, rfl, -⟩
      · exact hb
      · exact hb.exec o fun j record hc =>
          hfinds p c j record ha.next_eq hc (takesEffect_of_answered ha)
    | crash i hi => exact hb
    | tick n => exact hb

/-- **Every record expires**, in every run in which no record expires between the read and the
write of a program that rewrites it. -/
theorem records_expire (h : (system d).Run FindsRecord (system d).start s) : RecordsExpire s := by
  have hb : RecordsBounded s.world := by
    refine System.Run.invariant (I := fun t => RecordsBounded t.world) h ?_ ?_
    · intro t a t' ht ha hst
      exact (recordsBounded_step_iff ht hst).mpr ha
    · intro j x hx
      cases hx
  exact fun j x hx _ => hb j x hx

/-! ### Runs of the sample job -/

/-- The test for `FindsRecord`. -/
def findsRecord (s : Sys) (a : Act) : Bool :=
  match s.next a with
  | some (_, c) => (recordWrite c).all fun x => (recordOf s x.1).isSome
  | none => true

theorem findsRecord_sound {a : Act} (h : findsRecord s a = true) : FindsRecord s a := by
  intro p c j record hnext hc _
  simpa [findsRecord, hnext, hc] using h

/-- The sample job completes within the lifetime of its record, which is rewritten twice. -/
theorem records_expire_sample :
    ∃ s : Sys, (system .default).Run FindsRecord (system .default).start s ∧
      (recordOf s sampleId).map JobRecord.status = some .completed ∧ RecordsExpire s := by
  have hrun : (system .default).Run FindsRecord (system .default).start
      (sampleRun (submitSample ++ completeSample)) :=
    System.run_of_test findsRecord (fun _ _ => findsRecord_sound) _ (by decide +kernel)
  exact ⟨_, hrun, by decide +kernel, records_expire hrun⟩

/-- A worker reads the record of the sample job in `set_running` and writes it two hours later. -/
def lateWrite : List Act := submitSample ++ completeSample.take 8 ++ [.tick 7200000, ok 2]

/-- The record that the late write creates never expires. -/
theorem record_forever :
    ∃ s : Sys, (system .default).Reachable s ∧
      (recordOf s sampleId).map JobRecord.status = some .running ∧ ¬ RecordsExpire s := by
  refine ⟨sampleRun lateWrite, reachable_sampleRun _ (by decide +kernel), by decide +kernel, ?_⟩
  intro h
  obtain ⟨x, hx, hexp⟩ := Option.map_eq_some_iff.mp (show
    ((sampleRun lateWrite).world.record sampleId).map Stored.expiry = some none by decide +kernel)
  have hsome := h sampleId x hx (by rw [Stored.Live, hexp]; intro t ht; cases ht)
  rw [hexp] at hsome
  cases hsome

end CodeInterpreter
