import CodeInterpreter.Api.Config
import CodeInterpreter.Executor.Materialise
import CodeInterpreter.Worker.Daemon

/-!
# Accepted requests in the worker

What the API accepts travels as JSON to the worker, which decodes it, writes its files and spawns
its container. The two sides have different strings: the validator counts and matches code units and
lets lone surrogates and NUL pass, and the worker encodes the texts as UTF-8 and passes the variables
to a process. An accepted request is received as it was and runs exactly when its texts can be
encoded, its variables fit into a command line, and JavaScript prints its timeout exactly.

## Main definitions

* `NormalRequest.toJson`, `payloadJson`, `enqueued`: what the API writes.
* `NormalRequest.toRequest`: the same request in the worker.
* `workerRun`: the worker, from the payload to the result.
* `Deliverable`: the condition.

## Main results

* `requestOf_enqueued`: the worker decodes the same request, but for the timeout.
* `accepted_runs_iff`: which accepted requests run on a working machine.
* `lone_surrogate_fails`: an accepted request that does not.
-/

namespace CodeInterpreter

open Api Executor Async Program

/-! ### The payload -/

/-- The JSON object of an input file. -/
def Api.JsFile.toJson (file : JsFile) : Json :=
  .obj [(js "name", .str file.name), (js "content", .str file.content)]

namespace Api.NormalRequest

/-- The JSON object of the environment. -/
def envJson (env : List (JsStr × JsStr)) : Json := .obj (env.map fun kv => (kv.1, .str kv.2))

/-- The fields of a request, in the order of the schema. -/
def fields (q : NormalRequest) : List (JsStr × Json) :=
  [(js "language", .str q.language), (js "code", .str q.code)]
  ++ (q.stdin.map fun s => (js "stdin", Json.str s)).toList
  ++ [(js "timeout_seconds", .num q.timeoutSeconds)]
  ++ (q.envVars.map fun env => (js "env_vars", envJson env)).toList
  ++ (q.files.map fun files => (js "files", Json.arr (files.map JsFile.toJson))).toList

/-- The JSON object of a request. -/
def toJson (q : NormalRequest) : Json := .obj q.fields

/-- The request in the worker, with the given timeout. -/
def toRequest (q : NormalRequest) (seconds : ℤ) : ExecutionRequest where
  language := codePoints q.language
  code := codePoints q.code
  stdin := (q.stdin.map codePoints).getD []
  timeoutSeconds := seconds
  envVars := (q.envVars.getD []).map fun kv => (codePoints kv.1, codePoints kv.2)
  files := (q.files.getD []).map fun file => ⟨codePoints file.name, codePoints file.content⟩

end Api.NormalRequest

/-- The fields of a payload that the validator does not see. -/
structure Submission where
  jobId : JsStr
  userId : JsStr
  traceparent : JsStr
  nowIso : JsStr

/-- The payload of `enqueueJob`. -/
def payloadJson (job : Submission) (q : NormalRequest) : Json :=
  .obj [(js "job_id", .str job.jobId), (js "user_id", .str job.userId),
    (js "language", .str q.language), (js "request", q.toJson),
    (js "traceparent", .str job.traceparent), (js "submitted_at", .str job.nowIso)]

/-- The text of the payload as the worker gets it. -/
def enqueued (engine : Engine) (job : Submission) (q : NormalRequest) : Str :=
  sent (codeUnits ((payloadJson job q).stringify engine))

section

variable {q : NormalRequest}

theorem forall_mem_fields {P : JsStr × Json → Prop} :
    (∀ kv ∈ q.fields, P kv) ↔
      P (js "language", .str q.language) ∧ P (js "code", .str q.code) ∧
      (∀ s ∈ q.stdin, P (js "stdin", .str s)) ∧ P (js "timeout_seconds", .num q.timeoutSeconds) ∧
      (∀ env ∈ q.envVars, P (js "env_vars", NormalRequest.envJson env)) ∧
      ∀ files ∈ q.files, P (js "files", .arr (files.map JsFile.toJson)) := by
  simp only [NormalRequest.fields, List.forall_mem_append, List.forall_mem_cons, and_assoc]
  cases q.stdin <;> cases q.envVars <;> cases q.files <;> simp

theorem depth_toJson_le : q.toJson.depth ≤ 4 := by
  refine Nat.succ_le_succ (membersDepth_le_iff.mpr (forall_mem_fields.mpr ?_))
  refine ⟨by simp [Json.depth], by simp [Json.depth], fun s _ => by simp [Json.depth],
    by simp [Json.depth], fun env _ => ?_, fun files _ => ?_⟩
  · refine (Nat.succ_le_succ (membersDepth_le_iff.mpr fun kv hkv => ?_)).trans
      (show 2 ≤ 3 by decide)
    obtain ⟨e, -, rfl⟩ := List.mem_map.mp hkv
    simp [Json.depth]
  · refine Nat.succ_le_succ (elementsDepth_le_iff.mpr fun x hx => ?_)
    obtain ⟨file, -, rfl⟩ := List.mem_map.mp hx
    simp [JsFile.toJson, Json.depth, membersDepth]

theorem keys_fields : (q.fields.map Prod.fst).Sublist [js "language", js "code", js "stdin",
    js "timeout_seconds", js "env_vars", js "files"] := by
  unfold NormalRequest.fields
  cases q.stdin <;> cases q.envVars <;> cases q.files <;> simp

theorem nodup_fields : (q.fields.map Prod.fst).Nodup := keys_fields.nodup (by decide)

theorem keysDistinct_toJson (henv : ∀ env ∈ q.envVars, (env.map Prod.fst).Nodup) :
    q.toJson.KeysDistinct := by
  refine ⟨nodup_fields, membersDistinct_iff.mpr (forall_mem_fields.mpr ?_)⟩
  refine ⟨trivial, trivial, fun _ _ => trivial, trivial, fun env hy => ?_, fun files _ => ?_⟩
  · refine ⟨by simpa [Function.comp_def] using henv env hy, membersDistinct_iff.mpr ?_⟩
    intro kv hkv
    obtain ⟨e, -, rfl⟩ := List.mem_map.mp hkv
    trivial
  · refine elementsDistinct_iff.mpr fun x hx => ?_
    obtain ⟨file, -, rfl⟩ := List.mem_map.mp hx
    have hnames : [js "name", js "content"].Nodup := by decide
    exact ⟨hnames, trivial, trivial, trivial⟩

theorem loads_enqueued {py : Python} {engine : Engine} (hlimit : 5 ≤ py.recursionLimit)
    (henv : ∀ env ∈ q.envVars, (env.map Prod.fst).Nodup) (job : Submission) :
    py.loads (enqueued engine job q) = .ok ((payloadJson job q).toValue engine) := by
  refine loads_sent engine (le_trans ?_ hlimit) ?_
  · have := depth_toJson_le (q := q)
    simp only [payloadJson, Json.depth, membersDepth]
    omega
  · have hnodup : [js "job_id", js "user_id", js "language", js "request", js "traceparent",
        js "submitted_at"].Nodup := by decide
    simp only [payloadJson, Json.KeysDistinct, MembersDistinct, and_true, true_and]
    exact ⟨hnodup, keysDistinct_toJson henv⟩

/-! ### Decoding -/

variable (py : Python) (engine : Engine)

/-- The fields of a request that the worker looks up. -/
theorem lookup_fields (q : NormalRequest) :
    let d := memberValues engine q.fields
    lookup (str "language") d = some (.str (codePoints q.language)) ∧
    lookup (str "code") d = some (.str (codePoints q.code)) ∧
    lookup (str "stdin") d = q.stdin.map (fun s => .str (codePoints s)) ∧
    lookup (str "timeout_seconds") d = some ((Json.num q.timeoutSeconds).toValue engine) ∧
    lookup (str "env_vars") d =
      q.envVars.map (fun env => (NormalRequest.envJson env).toValue engine) ∧
    lookup (str "files") d =
      q.files.map (fun files => (Json.arr (files.map JsFile.toJson)).toValue engine) := by
  unfold NormalRequest.fields
  cases q.stdin <;> cases q.envVars <;> cases q.files <;>
    exact ⟨rfl, rfl, rfl, rfl, rfl, rfl⟩

theorem memberValues_env (env : List (JsStr × JsStr)) :
    memberValues engine (env.map fun kv => (kv.1, Json.str kv.2)) =
      env.map fun kv => (codePoints kv.1, Value.str (codePoints kv.2)) := by
  induction env with
  | nil => rfl
  | cons kv env ih => simp [memberValues, ih, Json.toValue]

/-- The environment is read back; an absent one is empty. -/
theorem readEnv_envVars (env : Option (List (JsStr × JsStr))) :
    ExecutionRequest.readEnv py
        (((env.map fun env => (NormalRequest.envJson env).toValue engine).getD .none).orElse
          (.dict [])) =
      .ok ((env.getD []).map fun kv => (codePoints kv.1, codePoints kv.2)) := by
  cases env with
  | none => rfl
  | some env =>
    have horElse : ((NormalRequest.envJson env).toValue engine).orElse (.dict []) =
        .dict (env.map fun kv => (codePoints kv.1, Value.str (codePoints kv.2))) := by
      rw [NormalRequest.envJson, Json.toValue, memberValues_env]
      cases env <;> rfl
    rw [Option.map_some, Option.getD_some, horElse]
    simp [ExecutionRequest.readEnv, Python.str]

theorem elementValues_files (files : List JsFile) :
    elementValues engine (files.map JsFile.toJson) =
      files.map fun file => Value.dict [(str "name", .str (codePoints file.name)),
        (str "content", .str (codePoints file.content))] := by
  induction files with
  | nil => rfl
  | cons file files ih =>
    rw [List.map_cons, elementValues, ih]
    rfl

/-- The files are read back; absent ones are empty. -/
theorem readFiles_files (files : Option (List JsFile)) :
    ExecutionRequest.readFiles py
        (((files.map fun files => (Json.arr (files.map JsFile.toJson)).toValue engine).getD
          .none).orElse (.list [])) =
      .ok ((files.getD []).map fun file => ⟨codePoints file.name, codePoints file.content⟩) := by
  cases files with
  | none => rfl
  | some files =>
    have horElse : ((Json.arr (files.map JsFile.toJson)).toValue engine).orElse (.list []) =
        .list (files.map fun file => Value.dict [(str "name", .str (codePoints file.name)),
          (str "content", .str (codePoints file.content))]) := by
      rw [Json.toValue, elementValues_files]
      cases files <;> rfl
    rw [Option.map_some, Option.getD_some, horElse, ExecutionRequest.readFiles, Option.getD_some]
    clear horElse
    induction files with
    | nil => rfl
    | cons file files ih =>
      rw [List.map_cons, List.mapM_cons, ih]
      rfl

theorem str_stdin (stdin : Option JsStr) :
    py.str (((stdin.map fun s => Value.str (codePoints s)).getD .none).orElse (.str [])) =
      (stdin.map codePoints).getD [] := by
  cases stdin with
  | none => rfl
  | some s =>
    by_cases hs : codePoints s = []
    · simp [Value.orElse, Value.truthy, Python.str, hs]
    · simp [Value.orElse, Value.truthy, Python.str, hs]

/-- The decoder gives the same request, with the timeout that was printed. -/
theorem fromDict_toJson (q : NormalRequest) :
    ExecutionRequest.fromDict py (q.toJson.toValue engine) =
      (py.int (((Json.num q.timeoutSeconds).toValue engine).orElse (.int 10))).map q.toRequest := by
  obtain ⟨hlanguage, hcode, hstdin, htimeout, henv, hfiles⟩ := lookup_fields engine q
  have hdict : q.toJson.toValue engine = .dict (memberValues engine q.fields) := rfl
  rw [hdict, ExecutionRequest.fromDict]
  simp only [Value.get, Value.getItem, hlanguage, hcode, hstdin, htimeout, henv, hfiles,
    Option.elim_some, Option.getD_some, Bind.bind, Except.bind, readFiles_files,
    readEnv_envVars, str_stdin]
  cases py.int (((Json.num q.timeoutSeconds).toValue engine).orElse (.int 10)) <;> rfl

/-- What the worker decodes of an enqueued request. -/
theorem requestOf_enqueued {q : NormalRequest} (hlimit : 5 ≤ py.recursionLimit)
    (henv : ∀ env ∈ q.envVars, (env.map Prod.fst).Nodup) (job : Submission) :
    (py.loads (enqueued engine job q)).bind (Worker.requestOf py) =
      (py.int (((Json.num q.timeoutSeconds).toValue engine).orElse (.int 10))).map q.toRequest := by
  rw [loads_enqueued hlimit henv]
  exact fromDict_toJson py engine q

/-- A whole timeout is decoded as it was exactly when its printed text denotes it. -/
theorem int_timeout_iff {n : ℕ} (hn : 1 ≤ n) :
    py.int (((Json.num (.finite n)).toValue engine).orElse (.int 10)) = .ok (n : ℤ) ↔
      py.int (engine.print n).value = .ok (n : ℤ) := by
  have hvalue : (Json.num (.finite n)).toValue engine = (engine.print n).value := rfl
  rw [hvalue]
  by_cases hle : n ≤ 2 ^ 53
  · obtain ⟨hsign, hinteger, hfraction, hexponent⟩ := engine.print_natCast n hle
    have hint : (engine.print n).value = .int n := by
      simp [NumberText.value, hsign, hinteger, hfraction, hexponent]
    have htruthy : (Value.int n).truthy = true := by
      simp only [Value.truthy, bne_iff_ne, ne_eq]
      omega
    rw [hint, Value.orElse, if_pos htruthy]
  · by_cases htruthy : (engine.print n).value.truthy = true
    · rw [Value.orElse, if_pos htruthy]
    · -- the text would denote zero, which the decoder replaces by ten
      rw [Value.orElse, if_neg htruthy]
      have hten : py.int (.int 10) ≠ .ok (n : ℤ) := by
        simp only [Python.int, ne_eq, Except.ok.injEq]
        omega
      refine iff_of_false hten fun hint => htruthy ?_
      rcases (engine.print n).value_cases with ⟨k, hk⟩ | ⟨y, hy⟩
      · rw [hk] at hint ⊢
        simp only [Python.int, Except.ok.injEq] at hint
        simp only [Value.truthy, bne_iff_ne, ne_eq]
        omega
      · rw [hy] at hint ⊢
        cases y with
        | nan => rfl
        | infinity negative => rfl
        | finite x =>
          simp only [Value.truthy, bne_iff_ne, ne_eq]
          rintro rfl
          simp only [Python.int, Except.ok.injEq] at hint
          have hzero : Int.tdiv (0 : ℚ).num (0 : ℚ).den = 0 := rfl
          omega

end

/-! ### Names and texts -/

theorem isFileChar_bounds {u : UInt16} (hu : isFileChar u = true) :
    u.toNat < 128 ∧ u.toNat ≠ 0 ∧ u.toNat ≠ 47 ∧ u.toNat ≠ 92 := by
  simp only [isFileChar, isAsciiAlnum, Bool.or_eq_true, Bool.and_eq_true, decide_eq_true_eq,
    beq_iff_eq] at hu
  omega

section

variable {base : JsStr} (hbase : SafeName base)
include hbase

theorem codePoints_safeName : codePoints base = base.map UInt16.toNat :=
  codePoints_of_lt fun u hu => by have := isFileChar_bounds (hbase.chars u hu); omega

theorem mem_codePoints_safeName {c : ℕ} (hc : c ∈ codePoints base) :
    c ≠ 0 ∧ c ≠ 47 ∧ c ≠ 92 ∧ (isAsciiAlnum c = true ∨ c = 46 ∨ c = 95 ∨ c = 45) := by
  rw [codePoints_safeName hbase] at hc
  obtain ⟨u, hu, rfl⟩ := List.mem_map.mp hc
  have hchar := hbase.chars u hu
  have hbounds := isFileChar_bounds hchar
  refine ⟨hbounds.2.1, hbounds.2.2.1, hbounds.2.2.2, ?_⟩
  simpa [isFileChar, or_assoc] using hchar

theorem plainName_of_safeName : PlainName (codePoints base) := by
  have hdot : codePoints (js ".") = str "." := by decide
  have hdots : codePoints (js "..") = str ".." := by decide
  refine ⟨?_, ?_, ?_, ?_, ?_, ?_⟩
  · intro h
    exact hbase.ne_nil (codePoints_injective h)
  · rw [← hdot]
    exact fun h => hbase.ne_dot (codePoints_injective h)
  · rw [← hdots]
    exact fun h => hbase.ne_dots (codePoints_injective h)
  · exact fun h => (mem_codePoints_safeName hbase h).2.1 rfl
  · exact fun h => (mem_codePoints_safeName hbase h).1 rfl
  · rw [codePoints_safeName hbase, List.length_map]
    exact hbase.length_le

/-- The worker keeps a sanitised name. -/
theorem safeBasename_of_safeName (py : Python) :
    safeBasename py (codePoints base) = some (codePoints base) := by
  have hplain := plainName_of_safeName hbase
  refine safeBasename_of_safeBase ⟨hplain.ne_nil, hplain.ne_dot, hplain.ne_dots, fun c hc => ?_,
    hplain.length_le⟩
  rcases (mem_codePoints_safeName hbase hc).2.2.2 with h | h | h | h
  · simp [isSafeChar, py.isalnum_ascii c (lt_of_isAsciiAlnum h), h]
  · simp [isSafeChar, h]
  · simp [isSafeChar, h]
  · simp [isSafeChar, h]

end

/-- The source file of a runtime has the name of a file. -/
theorem plainName_sourceFilename {env : Environment} {runtime : RuntimeConfig}
    (h : runtime ∈ registry env) : PlainName runtime.sourceFilename := by
  have hsources : ∀ spec ∈ specs, spec.sourceFilename ≠ [] ∧ spec.sourceFilename ≠ str "." ∧
      spec.sourceFilename ≠ str ".." ∧ 47 ∉ spec.sourceFilename ∧ 0 ∉ spec.sourceFilename ∧
      spec.sourceFilename.length ≤ 255 := by decide
  obtain ⟨spec, hspec, rfl⟩ := List.mem_map.mp h
  obtain ⟨h₁, h₂, h₃, h₄, h₅, h₆⟩ := hsources spec hspec
  exact ⟨h₁, h₂, h₃, h₄, h₅, h₆⟩

/-- Every language of the API has a runtime. -/
theorem getRuntime_of_supported (env : Environment) {language : JsStr}
    (h : isSupportedLanguage language = true) :
    ∃ runtime ∈ registry env, getRuntime env (codePoints language) = .ok runtime ∧
      PlainName runtime.sourceFilename := by
  have hids : ∀ l ∈ languages, codePoints l ∈ specs.map Spec.id := by decide
  obtain ⟨spec, hspec, hid⟩ :=
    List.mem_map.mp (hids language (by simpa [isSupportedLanguage] using h))
  have hsome : ((registry env).find? fun runtime => runtime.id == codePoints language).isSome := by
    rw [List.find?_isSome]
    exact ⟨_, List.mem_map_of_mem hspec, by simp [hid]⟩
  obtain ⟨runtime, hfind⟩ := Option.isSome_iff_exists.mp hsome
  have hmem := List.mem_of_find?_eq_some hfind
  exact ⟨runtime, hmem, by rw [getRuntime, hfind], plainName_sourceFilename hmem⟩

theorem encodeUtf8_codePoints (s : JsStr) : encodeUtf8 (codePoints s) = .ok () ↔ WellFormed s := by
  unfold encodeUtf8 WellFormed
  split_ifs with h
  · refine iff_of_false nofun fun hwell => ?_
    obtain ⟨c, hc, hsurrogate⟩ := List.any_eq_true.mp h
    rw [hwell c hc] at hsurrogate
    cases hsurrogate
  · refine iff_of_true rfl fun c hc => ?_
    rw [Bool.eq_false_iff]
    exact fun hsurrogate => h (List.any_eq_true.mpr ⟨c, hc, hsurrogate⟩)

theorem isNameStart_bounds {u : UInt16} (hu : isNameStart u = true ∨ isDigit u.toNat = true) :
    u.toNat < 128 ∧ u.toNat ≠ 0 := by
  simp only [isNameStart, isDigit, Bool.or_eq_true, Bool.and_eq_true, decide_eq_true_eq,
    beq_iff_eq] at hu
  omega

/-- The name of a variable can be passed on. -/
theorem passable_of_isEnvName {name : JsStr} (h : isEnvName name = true) :
    Passable (codePoints name) := by
  have hchars : ∀ u ∈ name, u.toNat < 128 ∧ u.toNat ≠ 0 := by
    cases name with
    | nil => cases h
    | cons u rest =>
      rw [isEnvName, Bool.and_eq_true] at h
      refine List.forall_mem_cons.mpr ⟨isNameStart_bounds (.inl h.1), fun v hv => ?_⟩
      exact isNameStart_bounds (by simpa using List.all_eq_true.mp h.2 v hv)
  rw [codePoints_of_lt fun u hu => by have := hchars u hu; omega]
  intro c hc
  obtain ⟨u, hu, rfl⟩ := List.mem_map.mp hc
  obtain ⟨hlt, hne⟩ := hchars u hu
  refine ⟨hne, fun hsurrogate => ?_⟩
  simp only [isSurrogate, Bool.and_eq_true, decide_eq_true_eq] at hsurrogate
  omega

/-- The element of a variable fits exactly when its value can be passed on and it is short. -/
theorem fits_entryText {kv : JsStr × JsStr} (h : isEnvName kv.1 = true) :
    Fits (entryText (codePoints kv.1, codePoints kv.2)) ↔
      Passable (codePoints kv.2) ∧
        fsLength (codePoints kv.1) + fsLength (codePoints kv.2) + 2 ≤ maxArgStrlen := by
  have hname := passable_of_isEnvName h
  have hassign : Passable (str "=") := by decide
  have hlength : fsLength (entryText (codePoints kv.1, codePoints kv.2)) + 1 =
      fsLength (codePoints kv.1) + fsLength (codePoints kv.2) + 2 := by
    have hone : fsLength (str "=") = 1 := by decide
    have happend (xs ys : Str) : fsLength (xs ++ ys) = fsLength xs + fsLength ys := by
      simp [fsLength]
    rw [entryText, happend, happend, hone]
    dsimp only
    omega
  rw [Fits, hlength]
  refine and_congr_left fun _ => ?_
  simp only [Passable, entryText, List.forall_mem_append]
  exact ⟨fun h => h.2, fun h => ⟨⟨hname, hassign⟩, h⟩⟩

/-! ### Accepted requests -/

/-- The worker, from the text of a payload to the result of the execution. -/
def workerRun (py : Python) (cfg : Settings) (text jobId : Str) (cancellable : Bool) :
    Executor.Prog ExecutionResult := do
  let payload ← Program.ofExcept (py.loads text)
  let request ← Program.ofExcept (Worker.requestOf py payload)
  execute py cfg request jobId cancellable

/-- The variables of a request in the worker. -/
def workerEnv (q : NormalRequest) : List (Str × Str) :=
  (q.envVars.getD []).map fun kv => (codePoints kv.1, codePoints kv.2)

/-- The texts of the request have UTF-8 encodings, its variables fit into the command line of the
container, and JavaScript prints its timeout exactly. -/
structure Deliverable (py : Python) (engine : Engine) (cfg : Settings) (host : Host) (m : Machine)
    (container : Str) (q : NormalRequest) : Prop where
  code : WellFormed q.code
  stdin : ∀ s ∈ q.stdin, WellFormed s
  files : ∀ files ∈ q.files, ∀ file ∈ files, WellFormed file.content
  env : ∀ env ∈ q.envVars, ∀ kv ∈ env, ¬ Dropped py (codePoints kv.1) →
    Passable (codePoints kv.2) ∧
      fsLength (codePoints kv.1) + fsLength (codePoints kv.2) + 2 ≤ maxArgStrlen
  command : ∀ runtime, getRuntime cfg.env (codePoints q.language) = .ok runtime →
    argSize (buildCommand py cfg host runtime bareRequest m.workdir container)
      + argSize (userArgs py (workerEnv q)) ≤ m.argSpace
  timeout : ∀ n : ℕ, q.timeoutSeconds = .finite n → py.int (engine.print n).value = .ok (n : ℤ)

section

variable {py : Python} {engine : Engine} {cfg : Settings} {host : Host} {m : Machine}

theorem stdin_ok_iff (q : NormalRequest) (n : ℤ) :
    encodeUtf8 (q.toRequest n).stdin = .ok () ↔ ∀ s ∈ q.stdin, WellFormed s := by
  simp only [NormalRequest.toRequest]
  cases q.stdin with
  | none => simp [encodeUtf8]
  | some s => simp [encodeUtf8_codePoints]

theorem files_ok_iff (q : NormalRequest) (n : ℤ) :
    (∀ file ∈ (q.toRequest n).files, encodeUtf8 file.content = .ok ()) ↔
      ∀ files ∈ q.files, ∀ file ∈ files, WellFormed file.content := by
  simp only [NormalRequest.toRequest]
  cases q.files with
  | none => simp
  | some files => simp [encodeUtf8_codePoints]

theorem env_fits_iff {q : NormalRequest}
    (hnames : ∀ env ∈ q.envVars, ∀ kv ∈ env, isEnvName kv.1 = true) :
    (∀ kv ∈ workerEnv q, ¬ Dropped py kv.1 → Fits (entryText kv)) ↔
      ∀ env ∈ q.envVars, ∀ kv ∈ env, ¬ Dropped py (codePoints kv.1) →
        Passable (codePoints kv.2) ∧
          fsLength (codePoints kv.1) + fsLength (codePoints kv.2) + 2 ≤ maxArgStrlen := by
  unfold workerEnv
  cases henv : q.envVars with
  | none => simp
  | some env =>
    have hentry : ∀ kv ∈ env, (Fits (entryText (codePoints kv.1, codePoints kv.2)) ↔ _) :=
      fun kv hkv => fits_entryText (hnames env henv kv hkv)
    simp only [Option.getD_some, List.forall_mem_map]
    constructor
    · intro h env' henv' kv hkv hdropped
      cases henv'
      exact (hentry kv hkv).mp (h kv hkv hdropped)
    · intro h kv hkv hdropped
      exact (hentry kv hkv).mpr (h env rfl kv hkv hdropped)

/-- The executor can materialise a normalised request exactly when the request is deliverable, but
for its timeout. -/
theorem deliverable_iff (engine : Engine) {limits : Limits} {q : NormalRequest}
    (hq : Normalised limits q)
    {runtime : RuntimeConfig} (hruntime : getRuntime cfg.env (codePoints q.language) = .ok runtime)
    {container : Str}
    (hbare : spawnArgv m.argSpace
      (buildCommand py cfg host runtime bareRequest m.workdir container) = .ok ()) (n : ℤ) :
    Deliverable py engine cfg host m container q ↔
      Materialises py cfg host m runtime (q.toRequest n) container ∧
        ∀ n : ℕ, q.timeoutSeconds = .finite n →
          py.int (engine.print n).value = .ok (n : ℤ) := by
  have hnames : ∀ env ∈ q.envVars, ∀ kv ∈ env, isEnvName kv.1 = true := fun env henv kv hkv =>
    (hq.env_name env henv kv hkv).1
  have hspawn := spawnArgv_buildCommand_iff py cfg host hbare (q.toRequest n)
  constructor
  · intro h
    refine ⟨⟨?_, ?_, hspawn.mpr ⟨?_, h.command runtime hruntime⟩, ?_⟩, h.timeout⟩
    · exact (encodeUtf8_codePoints _).mpr h.code
    · exact (files_ok_iff q n).mpr h.files
    · exact (env_fits_iff hnames).mpr h.env
    · exact (stdin_ok_iff q n).mpr h.stdin
  · rintro ⟨h, htimeout⟩
    obtain ⟨henv, hsize⟩ := hspawn.mp h.spawn
    refine ⟨?_, ?_, ?_, ?_, ?_, htimeout⟩
    · exact (encodeUtf8_codePoints _).mp h.code
    · exact (stdin_ok_iff q n).mp h.stdin
    · exact (files_ok_iff q n).mp h.files
    · exact (env_fits_iff hnames).mp henv
    · intro runtime' hruntime'
      cases hruntime.symm.trans hruntime'
      exact hsize

/-- What the worker runs when it decodes a request. -/
theorem workerRun_eq {text : Str} {request : ExecutionRequest}
    (h : (py.loads text).bind (Worker.requestOf py) = .ok request) (jobId : Str)
    (cancellable : Bool) :
    workerRun py cfg text jobId cancellable = execute py cfg request jobId cancellable := by
  unfold workerRun
  cases hloads : py.loads text with
  | error e =>
    rw [hloads] at h
    cases h
  | ok payload =>
    rw [hloads] at h
    have hrequest : Worker.requestOf py payload = .ok request := h
    change (Program.ofExcept (Worker.requestOf py payload) >>= fun request =>
      execute py cfg request jobId cancellable) = _
    rw [hrequest]
    rfl

theorem files_safe {limits : Limits} {q : NormalRequest} (hq : Normalised limits q) (n : ℤ) :
    ∀ file ∈ (q.toRequest n).files,
      safeBasename py file.name = some file.name ∧ PlainName file.name := by
  intro file hfile
  obtain ⟨file, hmem, rfl⟩ := List.mem_map.mp hfile
  cases hfiles : q.files with
  | none =>
    rw [hfiles] at hmem
    cases hmem
  | some files =>
    rw [hfiles] at hmem
    have hsafe := hq.file_name files hfiles file hmem
    exact ⟨safeBasename_of_safeName hsafe py, plainName_of_safeName hsafe⟩

variable (zod : Zod) (limits : Limits)

/-- **Which accepted requests run.** For every accepted request and every run of the worker on a
working machine, the worker decodes the same request and the execution returns exactly when the
texts of the request can be encoded, its variables fit into the command line and its timeout is
printed exactly. -/
theorem accepted_runs_iff {x : Json} (hkeys : x.KeysDistinct) {q : NormalRequest}
    (haccepted : validateExecutionRequest zod engine limits (some x) = .ok q)
    (hlimit : 5 ≤ py.recursionLimit) (job : Submission)
    (hdocker : ∀ runtime ∈ registry cfg.env, spawnArgv m.argSpace
      (buildCommand py cfg host runtime bareRequest m.workdir
        (str "sandbox-" ++ codePoints job.jobId)) = .ok ())
    {cancellable : Bool} {out : Except Exc ExecutionResult}
    {t : List (Event Executor.Cmd Executor.Reply Exc)}
    (hrun : Runs (workerRun py cfg (enqueued engine job q) (codePoints job.jobId) cancellable) []
      out t)
    (hworks : Admitted (m.contract py cfg host) [] t) :
    ((∃ n : ℕ, q.timeoutSeconds = .finite n ∧
        (py.loads (enqueued engine job q)).bind (Worker.requestOf py) = .ok (q.toRequest n)) ∧
      ∃ result, out = .ok result) ↔
    Deliverable py engine cfg host m (str "sandbox-" ++ codePoints job.jobId) q := by
  have hnormal := normalised_of_ok zod engine limits haccepted
  have hnodup := env_nodup_of_ok zod engine limits haccepted hkeys
  obtain ⟨n, hn, hpos, -⟩ := hnormal.timeout
  obtain ⟨runtime, hmem, hruntime, hsource⟩ := getRuntime_of_supported cfg.env hnormal.language
  have hreceived := requestOf_enqueued py engine hlimit hnodup job
  rw [hn] at hreceived
  have hdeliverable := deliverable_iff engine hnormal hruntime (hdocker runtime hmem) n
  -- with the timeout decoded, the worker executes this very request
  have hreturns (h : (py.loads (enqueued engine job q)).bind (Worker.requestOf py) =
      .ok (q.toRequest n)) :
      (∃ result, out = .ok result) ↔ Materialises py cfg host m runtime (q.toRequest n)
        (str "sandbox-" ++ codePoints job.jobId) := by
    rw [workerRun_eq h] at hrun
    exact execute_returns_iff hruntime hmem hsource (files_safe hnormal n) _ _ hrun hworks
  constructor
  · rintro ⟨⟨n', hn', hreq⟩, hresult⟩
    obtain rfl : n = n' := by simpa using hn.symm.trans hn'
    refine hdeliverable.mpr ⟨(hreturns hreq).mp hresult, fun k hk => ?_⟩
    obtain rfl : n = k := by simpa using hn.symm.trans hk
    rw [hreceived] at hreq
    refine (int_timeout_iff py engine hpos).mp ?_
    cases hint : py.int (((Json.num (.finite n)).toValue engine).orElse (.int 10)) with
    | error e =>
      rw [hint] at hreq
      cases hreq
    | ok seconds =>
      rw [hint] at hreq
      have hseconds : seconds = n :=
        congrArg ExecutionRequest.timeoutSeconds (Except.ok.inj hreq)
      rw [hseconds]
  · intro h
    obtain ⟨hmaterialises, htimeout⟩ := hdeliverable.mp h
    have hint := (int_timeout_iff py engine hpos).mpr (htimeout n hn)
    have hreq : (py.loads (enqueued engine job q)).bind (Worker.requestOf py) =
        .ok (q.toRequest n) := by rw [hreceived, hint]; rfl
    exact ⟨⟨n, hn, hreq⟩, (hreturns hreq).mpr hmaterialises⟩

end

/-! ### Sample requests -/

/-- An engine that prints whole numbers below `10 ^ 21`. -/
def sampleEngine : Engine where
  print x := ⟨decide (x < 0), x.num.natAbs % 10 ^ 21, Nat.mod_lt _ (by decide), [], none⟩
  print_natCast n hn := by
    refine ⟨by simp, ?_, rfl, rfl⟩
    simp only [Rat.num_natCast, Int.natAbs_natCast]
    exact Nat.mod_eq_of_lt (hn.trans_lt (by decide))

/-- The default time limit is not zero. -/
theorem default_timeout_pos : 0 < 10 := Nat.succ_pos 9

/-- The default limits. -/
def sampleLimits : Limits where
  maxCodeSizeBytes := 262144
  maxStdinBytes := 262144
  maxFiles := 8
  maxFileSizeBytes := 262144
  maxEnvVars := 32
  maxEnvValueLength := 4096
  defaultTimeoutSeconds := 10
  maxTimeoutSeconds := 30
  default_pos := default_timeout_pos
  default_le := by decide

example (toNumber : JsStr → PyFloat) :
    loadConfig toNumber (fun _ => none) = some sampleLimits := rfl

/-- A machine with the usual room for arguments. -/
def sampleMachine : Machine := ⟨str "/tmp/sandbox-work/j", str "/tmp/sandbox-work/j", 2097152⟩

/-- A submission of the API. -/
def bodySubmission : Submission := ⟨js "j", js "u", js "00", js "now"⟩

/-- A body with a program in Python, an input, a variable that is left out, and a file in a
directory. -/
def sampleBody (code : JsStr) : Json :=
  .obj [(js "language", .str (js "python")), (js "code", .str code),
    (js "stdin", .str (js "a\n")), (js "timeout_seconds", .num (.finite 60)),
    (js "env_vars", .obj [(js "PATH", .str (js "/evil")), (js "A", .str (js "b=c"))]),
    (js "files", .arr [.obj [(js "name", .str (js "d/in.txt")), (js "content", .str (js "x"))]])]

/-- The request of such a body. -/
def sampleNormal (code : JsStr) : NormalRequest where
  language := js "python"
  code := code
  stdin := some (js "a\n")
  timeoutSeconds := .finite (30 : ℕ)
  envVars := some [(js "A", js "b=c")]
  files := some [⟨js "in.txt", js "x"⟩]

/-- What the worker makes of it. -/
def sampleWorkerRun (code : JsStr) :
    Except Exc ExecutionResult × List (Event Executor.Cmd Executor.Reply Exc) :=
  (workerRun samplePython commandSettings
    (enqueued sampleEngine bodySubmission (sampleNormal code))
    (codePoints bodySubmission.jobId) true).play
    (fun _ => sampleMachine.answer samplePython commandSettings commandHost) []

theorem sampleWorkerRun_runs (code : JsStr) :
    Runs (workerRun samplePython commandSettings
      (enqueued sampleEngine bodySubmission (sampleNormal code))
      (codePoints bodySubmission.jobId) true) [] (sampleWorkerRun code).1
      (sampleWorkerRun code).2 := runs_play _ _ _

theorem sampleWorkerRun_works (code : JsStr) :
    Admitted (sampleMachine.contract samplePython commandSettings commandHost) []
      (sampleWorkerRun code).2 :=
  admitted_play (fun _ c => answers_answer samplePython commandSettings commandHost sampleMachine c)
    _ _

theorem sampleBody_keysDistinct (code : JsStr) : (sampleBody code).KeysDistinct := by
  have hkeys : [js "language", js "code", js "stdin", js "timeout_seconds", js "env_vars",
      js "files"].Nodup := by decide
  have henv : [js "PATH", js "A"].Nodup := by decide
  have hfile : [js "name", js "content"].Nodup := by decide
  simp only [sampleBody, Json.KeysDistinct, MembersDistinct, ElementsDistinct, List.map_cons,
    List.map_nil, and_true, true_and]
  exact ⟨hkeys, henv, hfile⟩

/-- The commands of the sample machine can be spawned. -/
theorem sampleMachine_spawns : ∀ runtime ∈ registry commandSettings.env,
    spawnArgv sampleMachine.argSpace (buildCommand samplePython commandSettings commandHost runtime
      bareRequest sampleMachine.workdir (str "sandbox-" ++ codePoints bodySubmission.jobId)) =
        .ok () := by decide +kernel

/-- A program with a character outside the basic plane, which is a surrogate pair in JavaScript. -/
def sampleCode : JsStr := js "print('" ++ [0xD83D, 0xDE00] ++ js "')"

theorem sampleNormal_deliverable :
    Deliverable samplePython sampleEngine commandSettings commandHost sampleMachine
      (str "sandbox-" ++ codePoints bodySubmission.jobId) (sampleNormal sampleCode) := by
  have hsize : ∀ runtime ∈ registry commandSettings.env,
      argSize (buildCommand samplePython commandSettings commandHost runtime bareRequest
          sampleMachine.workdir (str "sandbox-" ++ codePoints bodySubmission.jobId))
        + argSize (userArgs samplePython (workerEnv (sampleNormal sampleCode)))
        ≤ sampleMachine.argSpace := by decide +kernel
  refine ⟨by decide, by decide, by decide, by decide, ?_, ?_⟩
  · intro runtime hruntime
    refine hsize runtime ?_
    unfold getRuntime at hruntime
    split at hruntime
    · next hfind =>
      cases hruntime
      exact List.mem_of_find?_eq_some hfind
    · cases hruntime
  · intro n hn
    obtain rfl : (30 : ℕ) = n := by
      have hcast : ((30 : ℕ) : ℚ) = n := PyFloat.finite.inj hn
      exact_mod_cast hcast
    decide +kernel

/-- The body is accepted, and the worker runs its request. -/
theorem accepted_runs_iff_sample :
    validateExecutionRequest acceptor sampleEngine sampleLimits (some (sampleBody sampleCode)) =
      .ok (sampleNormal sampleCode) ∧
    ∃ n : ℕ, (samplePython.loads
        (enqueued sampleEngine bodySubmission (sampleNormal sampleCode))).bind
          (Worker.requestOf samplePython) = .ok ((sampleNormal sampleCode).toRequest n) ∧
      ∃ result, (sampleWorkerRun sampleCode).1 = .ok result := by
  have haccepted : validateExecutionRequest acceptor sampleEngine sampleLimits
      (some (sampleBody sampleCode)) = .ok (sampleNormal sampleCode) := rfl
  obtain ⟨⟨n, -, hreceived⟩, hresult⟩ := (accepted_runs_iff acceptor sampleLimits
    (sampleBody_keysDistinct sampleCode) haccepted (by decide) bodySubmission
    sampleMachine_spawns (sampleWorkerRun_runs sampleCode)
    (sampleWorkerRun_works sampleCode)).mpr sampleNormal_deliverable
  exact ⟨haccepted, n, hreceived, hresult⟩

/-- A program that is a lone surrogate: `Buffer.byteLength` counts three bytes, so the validator
accepts it, and `_write_file` raises a `UnicodeEncodeError`. -/
theorem lone_surrogate_fails :
    (sampleBody [0xD800]).KeysDistinct ∧
    validateExecutionRequest acceptor sampleEngine sampleLimits (some (sampleBody [0xD800])) =
      .ok (sampleNormal [0xD800]) ∧
    Runs (workerRun samplePython commandSettings
      (enqueued sampleEngine bodySubmission (sampleNormal [0xD800]))
      (codePoints bodySubmission.jobId) true) [] (.error .valueError)
      (sampleWorkerRun [0xD800]).2 ∧
    Admitted (sampleMachine.contract samplePython commandSettings commandHost) []
      (sampleWorkerRun [0xD800]).2 := by
  have hraises : (sampleWorkerRun [0xD800]).1 = .error .valueError := by decide +kernel
  exact ⟨sampleBody_keysDistinct _, rfl, hraises ▸ sampleWorkerRun_runs _, sampleWorkerRun_works _⟩

end CodeInterpreter
