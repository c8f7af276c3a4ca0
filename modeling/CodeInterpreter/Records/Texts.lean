import CodeInterpreter.Python.Portable
import CodeInterpreter.System

/-!
# Records as texts

The record of a job is a JSON text that both services read and write: the API server by
`JSON.parse`, a spread and `JSON.stringify`, the worker by `json.loads`, `dict.update` and
`json.dumps`. The commands of the model hold structured records. Here the texts are shown to be
such records: whichever service writes next, from whichever earlier text, the text that it writes is
read by both as the object of the updated record, and no step raises.

## Main definitions

* `JobRecord.fields`, `ExecutionResult.toValue`: the objects of the data contract.
* `Api.killedText`, `Worker.patchText`: the two ways in which a record is rewritten.
* `RecordText`: the texts that can lie under the key of a record.

## Main results

* `recordText_reads`: both services read the record from each of these texts, and can rewrite it.
-/

namespace CodeInterpreter

/-! ### The objects of the contract -/

/-- `OutputFile.to_dict`. -/
def OutputFile.toValue (f : OutputFile) : Value :=
  .dict [(str "name", .str f.name), (str "size_bytes", .int f.sizeBytes), (str "url", .str f.url)]

/-- `ExecutionResult.to_dict`. -/
def ExecutionResult.toValue (r : ExecutionResult) : Value :=
  .dict [(str "job_id", .str r.jobId), (str "status", .str r.status.text),
    (str "stdout", .str r.stdout), (str "stderr", .str r.stderr),
    (str "exit_code", r.exitCode.elim .none .int), (str "wall_time_ms", .int r.wallTimeMs),
    (str "cpu_time_ms", .int r.cpuTimeMs), (str "memory_bytes", .int r.memoryBytes),
    (str "oom_killed", .bool r.oomKilled), (str "timed_out", .bool r.timedOut),
    (str "truncated", .bool r.truncated), (str "files", .list (r.files.map OutputFile.toValue))]

/-- The members of a record: those that `enqueueJob` writes, and those that the worker adds. -/
def JobRecord.fields (r : JobRecord) (createdAt updatedAt : Str) : List (Str × Value) :=
  [(str "job_id", .str r.jobId), (str "user_id", .str r.userId), (str "language", .str r.language),
    (str "status", .str r.status.text), (str "request", r.request.toValue),
    (str "created_at", .str createdAt), (str "updated_at", .str updatedAt),
    (str "retries", .int r.retries)]
  ++ (r.result.map fun x => (str "result", x.toValue)).toList
  ++ (r.workerId.map fun w => (str "worker_id", Value.str w)).toList

/-- The texts and numbers of a result are such that both languages hold them. -/
structure ExecutionResult.Sound (r : ExecutionResult) : Prop where
  jobId : Readable r.jobId
  stdout : Readable r.stdout
  stderr : Readable r.stderr
  exitCode : ∀ n ∈ r.exitCode, n.natAbs ≤ 2 ^ 53
  wallTimeMs : r.wallTimeMs ≤ 2 ^ 53
  cpuTimeMs : r.cpuTimeMs ≤ 2 ^ 53
  memoryBytes : r.memoryBytes ≤ 2 ^ 53
  files : ∀ f ∈ r.files, Readable f.name ∧ f.sizeBytes ≤ 2 ^ 53 ∧ Readable f.url

/-- The same for a request. -/
structure ApiRequest.Sound (q : ApiRequest) : Prop where
  language : Readable q.language
  code : Readable q.code
  stdin : ∀ s ∈ q.stdin, Readable s
  timeoutSeconds : q.timeoutSeconds ≤ 2 ^ 53
  envVars : ∀ env ∈ q.envVars, (env.map Prod.fst).Nodup ∧
    ∀ kv ∈ env, PlainKey kv.1 ∧ Readable kv.2
  files : ∀ fs ∈ q.files, ∀ f ∈ fs, Readable f.name ∧ Readable f.content

theorem arrayIndex_of_head {key : JsStr} (h : ∀ u ∈ key.head?, isDigit u.toNat = false) :
    arrayIndex key = 2 ^ 32 - 1 := by
  refine if_neg fun hkey => ?_
  cases key with
  | nil => exact decimal_ne_nil _ hkey.1.symm
  | cons u key =>
    have hmem : u.toNat ∈ decimal (digitsValue ((u :: key).map UInt16.toNat)) := by
      rw [← hkey.1]
      exact List.mem_cons_self
    have hdigit := isDigit_of_mem_decimal hmem
    rw [h u rfl] at hdigit
    cases hdigit

/-- An ASCII name is a plain key, when it does not start with a digit. -/
theorem plainKey_of_ascii {s : Str} (hs : ∀ c ∈ s, c < 128)
    (hhead : ∀ c ∈ s.head?, isDigit c = false) : PlainKey s where
  readable := readable_of_isScalar (isScalar_ascii hs)
  last := by
    refine arrayIndex_of_head fun u hu => ?_
    cases s with
    | nil => cases hu
    | cons c s =>
      have hc := hs c List.mem_cons_self
      rw [codeUnits, List.flatMap_cons, pointUnits, if_pos (by omega)] at hu
      obtain rfl : UInt16.ofNat c = u := by simpa using hu
      rw [UInt16.toNat_ofNat', Nat.mod_eq_of_lt (by omega)]
      exact hhead c rfl

/-- The names of the contract. -/
def contractKeys : List Str :=
  [str "job_id", str "user_id", str "language", str "status", str "request", str "created_at",
    str "updated_at", str "retries", str "result", str "worker_id", str "stdout", str "stderr",
    str "exit_code", str "wall_time_ms", str "cpu_time_ms", str "memory_bytes", str "oom_killed",
    str "timed_out", str "truncated", str "files", str "name", str "size_bytes", str "url",
    str "code", str "stdin", str "timeout_seconds", str "env_vars", str "content", str "kind",
    str "type", str "data"]

theorem plainKey_of_mem {key : Str} (h : key ∈ contractKeys) : PlainKey key := by
  have hascii : ∀ key ∈ contractKeys, ∀ c ∈ key, c < 128 := by decide
  have hhead : ∀ key ∈ contractKeys, ∀ c ∈ key.head?, isDigit c = false := by decide
  exact plainKey_of_ascii (hascii key h) (hhead key h)

theorem readable_status (status : JobStatus) : Readable status.text := by
  refine readable_of_isScalar (isScalar_ascii ?_)
  cases status <;> decide

section

variable {repr : FloatRepr} {limit : ℕ}

/-- An object of the contract. -/
theorem portable_object (keys : List Str) {kvs : List (Str × Value)}
    (hkeys : (kvs.map Prod.fst).Sublist keys) (hnodup : keys.Nodup)
    (hcontract : ∀ key ∈ keys, key ∈ contractKeys)
    (h : ∀ kv ∈ kvs, Portable repr limit kv.2) : Portable repr (limit + 1) (.dict kvs) :=
  .dict (hkeys.nodup hnodup) fun kv hkv =>
    ⟨plainKey_of_mem (hcontract _ (hkeys.subset (List.mem_map_of_mem hkv))), h kv hkv⟩

theorem Portable.nat {n : ℕ} (hn : n ≤ 2 ^ 53) : Portable repr (limit + 1) (.int n) := .int hn

theorem ExecutionResult.Sound.portable {r : ExecutionResult} (hr : r.Sound) :
    Portable repr (limit + 4) r.toValue := by
  have hfile : ∀ x ∈ r.files.map OutputFile.toValue, Portable repr (limit + 2) x := by
    intro x hx
    obtain ⟨f, hf, rfl⟩ := List.mem_map.mp hx
    obtain ⟨hname, hsize, hurl⟩ := hr.files f hf
    refine portable_object [str "name", str "size_bytes", str "url"]
      (List.Sublist.refl _) (by decide) (by decide) ?_
    simp only [List.forall_mem_cons]
    exact ⟨.str hname, .nat hsize, .str hurl, by simp⟩
  have hexit : Portable repr (limit + 3) (r.exitCode.elim .none .int) := by
    cases hexit : r.exitCode with
    | none => exact .none
    | some n => exact .int (hr.exitCode n hexit)
  refine portable_object [str "job_id", str "status", str "stdout", str "stderr",
    str "exit_code", str "wall_time_ms", str "cpu_time_ms", str "memory_bytes", str "oom_killed",
    str "timed_out", str "truncated", str "files"] (List.Sublist.refl _) (by decide) (by decide) ?_
  simp only [List.forall_mem_cons]
  exact ⟨.str hr.jobId, .str (readable_status _), .str hr.stdout, .str hr.stderr, hexit,
    .nat hr.wallTimeMs, .nat hr.cpuTimeMs, .nat hr.memoryBytes, .bool _, .bool _, .bool _,
    .list hfile, by simp⟩

theorem ApiRequest.Sound.portable {q : ApiRequest} (hq : q.Sound) :
    Portable repr (limit + 4) q.toValue := by
  have henv : ∀ env ∈ q.envVars,
      Portable repr (limit + 3) (.dict (env.map fun kv => (kv.1, .str kv.2))) := by
    intro env henv
    obtain ⟨hnodup, hmembers⟩ := hq.envVars env henv
    refine .dict (by simpa [Function.comp_def] using hnodup) fun x hx => ?_
    obtain ⟨kv, hkv, rfl⟩ := List.mem_map.mp hx
    exact ⟨(hmembers kv hkv).1, .str (hmembers kv hkv).2⟩
  have hfiles : ∀ fs ∈ q.files, Portable repr (limit + 3) (.list (fs.map InputFile.toValue)) := by
    intro fs hfs
    refine .list fun x hx => ?_
    obtain ⟨f, hf, rfl⟩ := List.mem_map.mp hx
    obtain ⟨hname, hcontent⟩ := hq.files fs hfs f hf
    refine portable_object [str "name", str "content"] (List.Sublist.refl _) (by decide)
      (by decide) ?_
    simp only [List.forall_mem_cons]
    exact ⟨.str hname, .str hcontent, by simp⟩
  refine portable_object [str "language", str "code", str "stdin", str "timeout_seconds",
    str "env_vars", str "files"] ?_ (by decide) (by decide) ?_
  · cases q.stdin <;> cases q.envVars <;> cases q.files <;> simp
  · simp only [List.forall_mem_append, List.forall_mem_cons]
    refine ⟨⟨⟨⟨⟨.str hq.language, .str hq.code, by simp⟩, ?_⟩, .nat hq.timeoutSeconds, by simp⟩,
      ?_⟩, ?_⟩
    · cases hstdin : q.stdin with
      | none => simp
      | some s => simpa using .str (hq.stdin s hstdin)
    · cases henvVars : q.envVars with
      | none => simp
      | some env => simpa using henv env henvVars
    · cases hfs : q.files with
      | none => simp
      | some fs => simpa using hfiles fs hfs

end

theorem JobRecord.keys_fields (r : JobRecord) (createdAt updatedAt : Str) :
    ((r.fields createdAt updatedAt).map Prod.fst).Sublist [str "job_id", str "user_id",
      str "language", str "status", str "request", str "created_at", str "updated_at",
      str "retries", str "result", str "worker_id"] := by
  unfold JobRecord.fields
  cases r.result <;> cases r.workerId <;> simp

/-! ### The writers -/

/-- The text of the record that `enqueueJob` writes. -/
def Api.recordText (engine : Engine) (sub : Api.Submission) : Str :=
  (Json.obj (memberJsons (sub.record.fields sub.nowIso sub.nowIso))).stringify engine

/-- The text that `DELETE /v1/jobs/:id` writes over the one that it read. -/
def Api.killedText (engine : Engine) (now : Str) (raw : JsStr) : Option Str :=
  match parse raw with
  | some (.obj record) =>
    some ((Json.obj (spread record [(js "status", .str (js "KILLED")),
      (js "updated_at", .str (codeUnits now))])).stringify engine)
  | _ => none

namespace Worker

/-- `ResultStore.get_record` on the text under the key; a text that is no JSON, and a `null`, count
as no record. -/
def loadRecord (py : Python) : Option Str → Except Exc (Option Value)
  | none => .ok none
  | some raw =>
    match py.loads raw with
    | .ok .none => .ok none
    | .ok record => .ok (some record)
    | .error .jsonDecodeError => .ok none
    | .error e => .error e

/-- The text that `ResultStore.patch_record` writes over the one that it read. -/
def patchText (py : Python) (repr : FloatRepr) (fields : List (Str × Value)) (now : Str)
    (raw : Option Str) : Except Exc (Option Str) := do
  match ← loadRecord py raw with
  | none => return none
  | some (.dict record) =>
    let text ← py.dumps repr (.dict (update record (fields ++ [(str "updated_at", .str now)])))
    return some text
  | some _ => throw .attributeError

/-- The keyword arguments of `set_running`. -/
def runningUpdate (workerId : Str) : List (Str × Value) :=
  [(str "status", .str (JobStatus.text .running)), (str "worker_id", .str workerId)]

/-- The keyword arguments of `store_terminal`. -/
def terminalUpdate (result : ExecutionResult) (workerId : Str) : List (Str × Value) :=
  [(str "status", .str result.status.text), (str "result", result.toValue),
    (str "worker_id", .str workerId)]

end Worker

/-- The texts of a submission are such that both languages hold them. -/
structure Api.Submission.Sound (sub : Api.Submission) : Prop where
  jobId : CodeInterpreter.Readable sub.jobId
  userId : CodeInterpreter.Readable sub.principal.userId
  nowIso : CodeInterpreter.Readable sub.nowIso
  request : sub.request.Sound

section

variable (py : Python) (repr : FloatRepr) (engine : Engine)

/-- The texts that can lie under the key of a record, with the record and its two time stamps. A
service writes over any text that was there before, not only over the last one. -/
inductive RecordText : Str → JobRecord → Str → Str → Prop
  | enqueued (sub : Api.Submission) (hsub : sub.Sound) :
      RecordText (Api.recordText engine sub) sub.record sub.nowIso sub.nowIso
  | killed {text text' : Str} {record : JobRecord} {createdAt updatedAt now : Str}
      (h : RecordText text record createdAt updatedAt) (hnow : Readable now)
      (hw : Api.killedText engine now (codeUnits text) = some text') :
      RecordText text' (Api.killedRecord record) createdAt now
  | running {text text' : Str} {record : JobRecord} {createdAt updatedAt now workerId : Str}
      (h : RecordText text record createdAt updatedAt) (hnow : Readable now)
      (hworker : Readable workerId)
      (hw : Worker.patchText py repr (Worker.runningUpdate workerId) now (some text) =
        .ok (some text')) :
      RecordText text' (Worker.runningFields workerId record) createdAt now
  | terminal {text text' : Str} {record : JobRecord} {result : ExecutionResult}
      {createdAt updatedAt now workerId : Str} (h : RecordText text record createdAt updatedAt)
      (hnow : Readable now) (hworker : Readable workerId) (hresult : result.Sound)
      (hw : Worker.patchText py repr (Worker.terminalUpdate result workerId) now (some text) =
        .ok (some text')) :
      RecordText text' (Worker.terminalFields result workerId record) createdAt now

/-- The members of an object are those of a record. -/
def IsRecord (kvs : List (JsStr × Json)) (r : JobRecord) (createdAt updatedAt : Str) : Prop :=
  ∀ key, ownProperty kvs key = ownProperty (memberJsons (r.fields createdAt updatedAt)) key

end

section

variable {kvs : List (JsStr × Json)} {r : JobRecord} {createdAt updatedAt : Str}

theorem ownProperty_nil (key : JsStr) : ownProperty [] key = none := rfl

/-- The object after an update is that of another record, when the fields are. -/
theorem IsRecord.update (hkvs : Members kvs) (h : IsRecord kvs r createdAt updatedAt)
    {fields : List (Str × Value)} (hnodup : ((memberJsons fields).map Prod.fst).Nodup)
    {r' : JobRecord} {now : Str}
    (hnew : ∀ key, (ownProperty (memberJsons fields) key).or
      (ownProperty (memberJsons (r.fields createdAt updatedAt)) key) =
        ownProperty (memberJsons (r'.fields createdAt now)) key) :
    IsRecord (spread kvs (memberJsons fields)) r' createdAt now := by
  intro key
  rw [ownProperty_spread hkvs hnodup, h key, hnew key]

theorem IsRecord.killed (hkvs : Members kvs) (h : IsRecord kvs r createdAt updatedAt) (now : Str) :
    IsRecord (spread kvs (memberJsons [(str "status", .str (JobStatus.text .killed)),
      (str "updated_at", .str now)])) (Api.killedRecord r) createdAt now := by
  have hnodup : [codeUnits (str "status"), codeUnits (str "updated_at")].Nodup := by decide
  apply h.update hkvs (by exact hnodup)
  intro key
  simp only [memberJsons_eq_map, JobRecord.fields, Api.killedRecord]
  by_cases hstatus : key = codeUnits (str "status")
  · subst hstatus
    simp +decide [ownProperty_cons]
  by_cases hupdated : key = codeUnits (str "updated_at")
  · subst hupdated
    simp +decide [ownProperty_cons]
  · simp [ownProperty_cons, hstatus, hupdated, ownProperty_nil]

theorem IsRecord.running (hkvs : Members kvs) (h : IsRecord kvs r createdAt updatedAt)
    (workerId now : Str) :
    IsRecord (spread kvs (memberJsons (Worker.runningUpdate workerId ++
      [(str "updated_at", .str now)]))) (Worker.runningFields workerId r) createdAt now := by
  have hnodup : [codeUnits (str "status"), codeUnits (str "worker_id"),
      codeUnits (str "updated_at")].Nodup := by decide
  apply h.update hkvs (by exact hnodup)
  intro key
  simp only [memberJsons_eq_map, JobRecord.fields, Worker.runningFields, Worker.runningUpdate]
  by_cases hstatus : key = codeUnits (str "status")
  · subst hstatus
    simp +decide [ownProperty_cons]
  by_cases hworker : key = codeUnits (str "worker_id")
  · subst hworker
    cases r.result <;> simp +decide [ownProperty_cons]
  by_cases hupdated : key = codeUnits (str "updated_at")
  · subst hupdated
    simp +decide [ownProperty_cons]
  · cases r.result <;> cases r.workerId <;>
      simp [ownProperty_cons, hstatus, hworker, hupdated, ownProperty_nil]

theorem IsRecord.terminal (hkvs : Members kvs) (h : IsRecord kvs r createdAt updatedAt)
    (result : ExecutionResult) (workerId now : Str) :
    IsRecord (spread kvs (memberJsons (Worker.terminalUpdate result workerId ++
      [(str "updated_at", .str now)]))) (Worker.terminalFields result workerId r) createdAt
      now := by
  have hnodup : [codeUnits (str "status"), codeUnits (str "result"), codeUnits (str "worker_id"),
      codeUnits (str "updated_at")].Nodup := by decide
  apply h.update hkvs (by exact hnodup)
  intro key
  simp only [memberJsons_eq_map, JobRecord.fields, Worker.terminalFields, Worker.terminalUpdate]
  by_cases hstatus : key = codeUnits (str "status")
  · subst hstatus
    simp +decide [ownProperty_cons]
  by_cases hresult : key = codeUnits (str "result")
  · subst hresult
    simp +decide [ownProperty_cons]
  by_cases hworker : key = codeUnits (str "worker_id")
  · subst hworker
    simp +decide [ownProperty_cons]
  by_cases hupdated : key = codeUnits (str "updated_at")
  · subst hupdated
    simp +decide [ownProperty_cons]
  · cases r.result <;> cases r.workerId <;>
      simp [ownProperty_cons, hstatus, hresult, hworker, hupdated, ownProperty_nil]

end

/-! ### Every text is its record -/

section

variable {py : Python} {repr : FloatRepr} {engine : Engine}
variable {text : Str} {r : JobRecord} {createdAt updatedAt now workerId : Str}

/-- Fields with names of the contract, which both languages hold. -/
theorem updates_of_portable (hlimit : 5 ≤ py.recursionLimit) {fields : List (Str × Value)}
    (hkeys : ∀ key ∈ fields.map Prod.fst, key ∈ contractKeys)
    (h : ∀ limit, ∀ kv ∈ fields, Portable repr (limit + 4) kv.2) : Updates py repr fields := by
  intro kv hkv
  refine ⟨plainKey_of_mem (hkeys _ (List.mem_map_of_mem hkv)), py.recursionLimit - 1, by omega, ?_⟩
  have := h (py.recursionLimit - 5) kv hkv
  rwa [show py.recursionLimit - 5 + 4 = py.recursionLimit - 1 by omega] at this

theorem updates_killed (hlimit : 5 ≤ py.recursionLimit) (hnow : Readable now) :
    Updates py repr
      [(str "status", .str (JobStatus.text .killed)), (str "updated_at", .str now)] := by
  have hkeys : ∀ key ∈ [str "status", str "updated_at"], key ∈ contractKeys := by decide
  refine updates_of_portable hlimit hkeys fun limit => ?_
  simp only [List.forall_mem_cons]
  exact ⟨.str (readable_status _), .str hnow, by simp⟩

theorem updates_running (hlimit : 5 ≤ py.recursionLimit) (hnow : Readable now)
    (hworker : Readable workerId) :
    Updates py repr (Worker.runningUpdate workerId ++ [(str "updated_at", .str now)]) := by
  have hkeys : ∀ key ∈ [str "status", str "worker_id", str "updated_at"], key ∈ contractKeys := by
    decide
  refine updates_of_portable hlimit hkeys fun limit => ?_
  simp only [Worker.runningUpdate, List.cons_append, List.nil_append, List.forall_mem_cons]
  exact ⟨.str (readable_status _), .str hworker, .str hnow, by simp⟩

theorem updates_terminal (hlimit : 5 ≤ py.recursionLimit) (hnow : Readable now)
    (hworker : Readable workerId) {result : ExecutionResult} (hresult : result.Sound) :
    Updates py repr
      (Worker.terminalUpdate result workerId ++ [(str "updated_at", .str now)]) := by
  have hkeys : ∀ key ∈ [str "status", str "result", str "worker_id", str "updated_at"],
      key ∈ contractKeys := by decide
  refine updates_of_portable hlimit hkeys fun limit => ?_
  simp only [Worker.terminalUpdate, List.cons_append, List.nil_append, List.forall_mem_cons]
  exact ⟨.str (readable_status _), hresult.portable, .str hworker, .str hnow, by simp⟩

/-- The worker can write over a text that it can read. -/
theorem Holds.patchText {kvs : List (JsStr × Json)} (h : Holds py repr text kvs)
    {fields : List (Str × Value)}
    (hfields : Updates py repr (fields ++ [(str "updated_at", .str now)])) :
    ∃ text', Worker.patchText py repr fields now (some text) = .ok (some text') ∧
      Holds py repr text' (CodeInterpreter.spread kvs
        (memberJsons (fields ++ [(str "updated_at", .str now)]))) := by
  obtain ⟨members, hloads, text', htext', hholds⟩ := h.dumps_update hfields
  refine ⟨text', ?_, hholds⟩
  rw [Worker.patchText, Worker.loadRecord, hloads]
  show (do let text ← py.dumps repr _; return some text : Except Exc (Option Str)) = _
  rw [htext']
  rfl

/-- The API server can write over a text that it can read. -/
theorem Holds.killedText (hengine : engine.Exact) {kvs : List (JsStr × Json)}
    (h : Holds py repr text kvs) (hlimit : 5 ≤ py.recursionLimit) (hnow : Readable now) :
    ∃ text', Api.killedText engine now (codeUnits text) = some text' ∧
      Holds py repr text' (CodeInterpreter.spread kvs (memberJsons
        [(str "status", .str (JobStatus.text .killed)), (str "updated_at", .str now)])) := by
  refine ⟨_, ?_, h.stringify_spread hengine (updates_killed hlimit hnow)⟩
  rw [Api.killedText, h.parsed]
  rfl

theorem Submission.holds_recordText (hengine : engine.Exact) (hlimit : 5 ≤ py.recursionLimit)
    {sub : Api.Submission} (hsub : sub.Sound) :
    Holds py repr (Api.recordText engine sub)
      (memberJsons (sub.record.fields sub.nowIso sub.nowIso)) := by
  have hportable : Portable repr (py.recursionLimit - 5 + 4 + 1)
      (.dict (sub.record.fields sub.nowIso sub.nowIso)) := by
    refine portable_object _ (sub.record.keys_fields _ _) (by decide) (by decide) ?_
    simp only [JobRecord.fields, Api.Submission.record, Option.map_none, Option.toList_none,
      List.append_nil, List.forall_mem_cons]
    exact ⟨.str hsub.jobId, .str hsub.userId, .str hsub.request.language, .str (readable_status _),
      hsub.request.portable, .str hsub.nowIso, .str hsub.nowIso, .nat (Nat.zero_le _), by simp⟩
  rw [show py.recursionLimit - 5 + 4 + 1 = py.recursionLimit by omega] at hportable
  exact holds_stringify hengine hportable.proper hportable.shallow

/-- Each text is one that both services read as its record. -/
theorem RecordText.holds (hengine : engine.Exact) (hlimit : 5 ≤ py.recursionLimit)
    (h : RecordText py repr engine text r createdAt updatedAt) :
    ∃ kvs, Holds py repr text kvs ∧ IsRecord kvs r createdAt updatedAt := by
  induction h with
  | enqueued sub hsub =>
    exact ⟨_, Submission.holds_recordText hengine hlimit hsub, fun key => rfl⟩
  | killed _ hnow hw ih =>
    obtain ⟨kvs, hholds, hrecord⟩ := ih
    obtain ⟨text'', hw', hholds'⟩ := hholds.killedText hengine hlimit hnow
    obtain rfl := Option.some.inj (hw'.symm.trans hw)
    exact ⟨_, hholds', hrecord.killed hholds.proper.1 _⟩
  | running _ hnow hworker hw ih =>
    obtain ⟨kvs, hholds, hrecord⟩ := ih
    obtain ⟨text'', hw', hholds'⟩ := hholds.patchText (updates_running hlimit hnow hworker)
    obtain rfl := Option.some.inj (Except.ok.inj (hw'.symm.trans hw))
    exact ⟨_, hholds', hrecord.running hholds.proper.1 _ _⟩
  | terminal _ hnow hworker hresult hw ih =>
    obtain ⟨kvs, hholds, hrecord⟩ := ih
    obtain ⟨text'', hw', hholds'⟩ :=
      hholds.patchText (updates_terminal hlimit hnow hworker hresult)
    obtain rfl := Option.some.inj (Except.ok.inj (hw'.symm.trans hw))
    exact ⟨_, hholds', hrecord.terminal hholds.proper.1 _ _ _⟩

/-- **Both services read the record from its text, and each can write over it.** -/
theorem recordText_reads (hengine : engine.Exact) (hlimit : 5 ≤ py.recursionLimit)
    (h : RecordText py repr engine text r createdAt updatedAt) :
    (∃ kvs, IsRecord kvs r createdAt updatedAt ∧ parse (codeUnits text) = some (.obj kvs) ∧
      ∃ members, Worker.loadRecord py (some text) = .ok (some (.dict members)) ∧
        memberJsons members = kvs) ∧
    ∀ now, Readable now →
      (∃ text', Api.killedText engine now (codeUnits text) = some text' ∧
        RecordText py repr engine text' (Api.killedRecord r) createdAt now) ∧
      ∀ workerId, Readable workerId →
        (∃ text', Worker.patchText py repr (Worker.runningUpdate workerId) now (some text) =
            .ok (some text') ∧
          RecordText py repr engine text' (Worker.runningFields workerId r) createdAt now) ∧
        ∀ result, ExecutionResult.Sound result →
          ∃ text', Worker.patchText py repr (Worker.terminalUpdate result workerId) now
              (some text) = .ok (some text') ∧
            RecordText py repr engine text' (Worker.terminalFields result workerId r) createdAt
              now := by
  obtain ⟨kvs, hholds, hrecord⟩ := h.holds hengine hlimit
  refine ⟨⟨kvs, hrecord, hholds.parsed, ?_⟩, fun now hnow => ⟨?_, fun workerId hworker =>
    ⟨?_, fun result hresult => ?_⟩⟩⟩
  · obtain ⟨members, hloads, hmembers, -⟩ := hholds.loaded
    exact ⟨members, by rw [Worker.loadRecord, hloads], hmembers⟩
  · obtain ⟨text', hw, -⟩ := hholds.killedText hengine hlimit hnow
    exact ⟨text', hw, .killed h hnow hw⟩
  · obtain ⟨text', hw, -⟩ := hholds.patchText (updates_running hlimit hnow hworker)
    exact ⟨text', hw, .running h hnow hworker hw⟩
  · obtain ⟨text', hw, -⟩ := hholds.patchText (updates_terminal hlimit hnow hworker hresult)
    exact ⟨text', hw, .terminal h hnow hworker hresult hw⟩

end

theorem readable_ascii {s : Str} (h : ∀ c ∈ s, c < 128) : Readable s :=
  readable_of_isScalar (isScalar_ascii h)

theorem sampleSubmission_sound : (sampleSubmission sampleId).Sound where
  jobId := readable_ascii (by decide)
  userId := readable_ascii (by decide)
  nowIso := readable_ascii (by decide)
  request :=
    { language := readable_ascii (by decide)
      code := readable_ascii (by decide)
      stdin := by simp [sampleSubmission, sampleRequest]
      timeoutSeconds := by decide
      envVars := by simp [sampleSubmission, sampleRequest]
      files := by simp [sampleSubmission, sampleRequest] }

theorem sampleResult_sound : sampleResult.Sound where
  jobId := readable_ascii (by decide)
  stdout := readable_ascii (by decide)
  stderr := readable_ascii (by decide)
  exitCode := by simp [sampleResult]
  wallTimeMs := by decide
  cpuTimeMs := by decide
  memoryBytes := by decide
  files := by simp [sampleResult]

/-- The record of the sample job is written by the API server, marked as running and completed by
the worker. -/
theorem recordText_reads_sample :
    ∃ text now, RecordText samplePython exactRepr exactEngine text
      (Worker.terminalFields sampleResult (str "worker-1")
        (Worker.runningFields (str "worker-1") (sampleSubmission sampleId).record))
      (sampleSubmission sampleId).nowIso now := by
  have hlimit : 5 ≤ samplePython.recursionLimit := by decide
  have hnow : Readable (str "2024-01-01T00:00:01+00:00") := readable_ascii (by decide)
  have hworker : Readable (str "worker-1") := readable_ascii (by decide)
  have hfirst : RecordText samplePython exactRepr exactEngine _ _ _ _ :=
    .enqueued (sampleSubmission sampleId) sampleSubmission_sound
  obtain ⟨text, -, hrunning⟩ := (((recordText_reads exactEngine_exact hlimit hfirst).2 _ hnow).2 _
    hworker).1
  obtain ⟨text', -, hterminal⟩ := (((recordText_reads exactEngine_exact hlimit hrunning).2 _
    hnow).2 _ hworker).2 _ sampleResult_sound
  exact ⟨text', _, hterminal⟩

end CodeInterpreter
