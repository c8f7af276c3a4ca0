import CodeInterpreter.Js.Json
import CodeInterpreter.Js.Zod
import Mathlib.Algebra.Order.Ring.Rat
import Mathlib.Data.Nat.Cast.Order.Ring

/-!
# The request validator

`validateExecutionRequest` (`api/src/middleware/validator.ts`) over the combinators of zod: the
schema with its limits and messages, the cleaning of the environment and the sanitising of file
names.

## Main definitions

* `Limits`: the part of the configuration that the schema reads.
* `sanitizeFilename`, `cleanEnv`, `fileIssues`, `buildSchema`, `validateExecutionRequest`.
* `NormalRequest`: the value of an accepted request.
* `SafeName`, `Normalised`: what holds of it.

## Main results

* `sanitizeFilename_safe`: a sanitised name is a plain one.
* `normalised_of_ok`: an accepted request is normalised.
-/

namespace CodeInterpreter.Api

/-- The limits that `loadConfig` accepts, as far as the validator reads them. -/
structure Limits where
  maxCodeSizeBytes : ℕ
  maxStdinBytes : ℕ
  maxFiles : ℕ
  maxFileSizeBytes : ℕ
  maxEnvVars : ℕ
  maxEnvValueLength : ℕ
  defaultTimeoutSeconds : ℕ
  maxTimeoutSeconds : ℕ
  default_pos : 0 < defaultTimeoutSeconds
  default_le : defaultTimeoutSeconds ≤ maxTimeoutSeconds

/-- The languages, in the order of the source. -/
def languages : List JsStr :=
  [js "python", js "javascript", js "typescript", js "java", js "go", js "ruby", js "rust",
    js "bash"]

/-- `isSupportedLanguage`. -/
def isSupportedLanguage (value : JsStr) : Bool := value ∈ languages

/-! ### Environment variables -/

/-- Names of environment variables that are silently left out. -/
def disallowedEnvNames : List JsStr :=
  [js "PATH", js "LD_PRELOAD", js "LD_LIBRARY_PATH", js "LD_AUDIT", js "NODE_OPTIONS",
    js "PYTHONPATH", js "PYTHONSTARTUP", js "BASH_ENV", js "ENV", js "IFS", js "SHELLOPTS",
    js "RUBYOPT", js "PERL5LIB", js "GEM_PATH", js "CLASSPATH", js "JAVA_TOOL_OPTIONS", js "HOME",
    js "SANDBOX"]

/-- `[A-Za-z_]`. -/
def isNameStart (u : UInt16) : Bool :=
  (65 ≤ u.toNat && u.toNat ≤ 90) || (97 ≤ u.toNat && u.toNat ≤ 122) || u.toNat == 95

/-- `ENV_NAME_RE`. -/
def isEnvName : JsStr → Bool
  | [] => false
  | u :: rest => isNameStart u && rest.all fun v => isNameStart v || isDigit v.toNat

/-- `name.toUpperCase()` on ASCII. -/
def toUpperCase (name : JsStr) : JsStr := name.map fun u => UInt16.ofNat (asciiUpper u.toNat)

/-- The transformation of `env_vars`, after `count` variables were kept. -/
def cleanEnv (limits : Limits) : ℕ → List (JsStr × JsStr) → List (JsStr × JsStr)
  | _, [] => []
  | count, (name, value) :: rest =>
    if limits.maxEnvVars ≤ count then []
    else if !isEnvName name then cleanEnv limits count rest
    else if toUpperCase name ∈ disallowedEnvNames then cleanEnv limits count rest
    else (name, value) :: cleanEnv limits (count + 1) rest

/-! ### File names -/

/-- `[A-Za-z0-9._-]`. -/
def isFileChar (u : UInt16) : Bool :=
  isAsciiAlnum u.toNat || u.toNat == 46 || u.toNat == 95 || u.toNat == 45

/-- `sanitizeFilename`. -/
def sanitizeFilename (name : JsStr) : Option JsStr :=
  let segments := (name.map fun u => if u = 92 then 47 else u).splitOn 47
  let base := ((segments.filter fun s => s ≠ []).getLast?).getD []
  if 0 ∈ name then none
  else if base = [] ∨ base = js "." ∨ base = js ".." then none
  else if ¬ base.all isFileChar then none
  else if 255 < base.length then none
  else some base

/-- An input file of a request. -/
structure JsFile where
  name : JsStr
  content : JsStr
  deriving DecidableEq

section

variable (engine : Engine) (limits : Limits)

/-- The text of a number in a message. -/
def numberText (n : ℕ) : JsStr := codeUnits (engine.print n).text

/-- What `superRefine` adds about the files, with paths relative to the list. -/
def fileIssues (files : List JsFile) : List Issue :=
  files.zipIdx.flatMap fun (file, i) =>
    (if sanitizeFilename file.name = none then
      [{ path := [numberText engine i, js "name"]
         message := js "Unsafe filename '" ++ file.name ++ js "'" }]
    else [])
    ++ if limits.maxFileSizeBytes < byteLength (codePoints file.content) then
      [{ path := [numberText engine i, js "content"]
         message := js "File '" ++ file.name ++ js "' exceeds "
          ++ numberText engine limits.maxFileSizeBytes ++ js " bytes" }]
    else []

end

/-! ### The schema -/

/-- The value of an accepted request. -/
structure NormalRequest where
  language : JsStr
  code : JsStr
  stdin : Option JsStr
  timeoutSeconds : PyFloat
  envVars : Option (List (JsStr × JsStr))
  files : Option (List JsFile)

/-- An error of a field. -/
structure FieldError where
  field : JsStr
  message : JsStr
  deriving DecidableEq

/-- `Math.min` on whole numbers. -/
def mathMin (t : PyFloat) (n : ℕ) : PyFloat :=
  match t with
  | .finite q => .finite (min q n)
  | .infinity false => .finite n
  | t => t

/-- The transformation of `timeout_seconds`. -/
def clampTimeout (limits : Limits) (t : Option PyFloat) : PyFloat :=
  t.elim (.finite limits.defaultTimeoutSeconds) fun t => mathMin t limits.maxTimeoutSeconds

/-- The transformation of `files`. -/
def sanitizeFiles (files : List JsFile) : List JsFile :=
  files.map fun file => { file with name := (sanitizeFilename file.name).getD [] }

section

variable (zod : Zod) (engine : Engine) (limits : Limits)

/-- The schema of `language`. -/
def languageSchema : zod.Schema JsStr :=
  zod.refine zod.string isSupportedLanguage
    (js "language must be one of: " ++ (js ", ").intercalate languages)

/-- The schema of `code`. -/
def codeSchema : zod.Schema JsStr :=
  zod.refine (zod.min zod.string 1 (some (js "code must not be empty")))
    (fun c => byteLength (codePoints c) ≤ limits.maxCodeSizeBytes)
    (js "code exceeds MAX_CODE_SIZE_BYTES (" ++ numberText engine limits.maxCodeSizeBytes ++ js ")")

/-- The schema of `stdin`. -/
def stdinSchema : zod.Schema (Option JsStr) :=
  zod.optional <| zod.refine zod.string
    (fun s => byteLength (codePoints s) ≤ limits.maxStdinBytes)
    (js "stdin exceeds MAX_STDIN_BYTES (" ++ numberText engine limits.maxStdinBytes ++ js ")")

/-- The schema of `timeout_seconds`. -/
def timeoutSchema : zod.Schema PyFloat :=
  zod.transform
    (zod.optional (zod.positive (zod.int zod.number)
      (js "timeout_seconds must be a positive integer")))
    (clampTimeout limits)

/-- The schema of `env_vars`. -/
def envSchema : zod.Schema (Option (List (JsStr × JsStr))) :=
  zod.transform
    (zod.optional (zod.record (zod.max zod.string limits.maxEnvValueLength)))
    (fun env => env.map (cleanEnv limits 0))

/-- The schema of one file; other properties of it are left out. -/
def fileSchema : zod.Schema JsFile :=
  zod.transform
    (zod.object (.field (js "name") (zod.min zod.string 1 none)
      (.field (js "content") zod.string .nil)))
    (fun file => { name := file.1, content := file.2.1 })

/-- The schema of `files`. -/
def filesSchema : zod.Schema (Option (List JsFile)) :=
  zod.transform
    (zod.superRefine
      (zod.optional (zod.arrayMax (zod.array (fileSchema zod)) limits.maxFiles))
      (fun files => files.elim [] (fileIssues engine limits)))
    (fun files => files.map sanitizeFiles)

/-- `buildSchema`. -/
def buildSchema : zod.Schema NormalRequest :=
  zod.transform
    (zod.strictObject
      (.field (js "language") (languageSchema zod)
        (.field (js "code") (codeSchema zod engine limits)
          (.field (js "stdin") (stdinSchema zod engine limits)
            (.field (js "timeout_seconds") (timeoutSchema zod limits)
              (.field (js "env_vars") (envSchema zod limits)
                (.field (js "files") (filesSchema zod engine limits) .nil)))))))
    (fun (language, code, stdin, timeoutSeconds, envVars, files, _) =>
      { language, code, stdin, timeoutSeconds, envVars, files })

/-- The error of an issue: its path, joined by dots. -/
def fieldError (issue : Issue) : FieldError :=
  let field := (js ".").intercalate issue.path
  { field := if field = [] then js "(root)" else field, message := issue.message }

/-- `validateExecutionRequest`; the input is `none` when there is no body. -/
def validateExecutionRequest (input : Option Json) : Except (List FieldError) NormalRequest :=
  match zod.safeParse (buildSchema zod engine limits) input with
  | .ok value => .ok value
  | .error issues => .error (issues.map fieldError)

end

/-! ### What is accepted -/

/-- A plain file name of ASCII letters, digits, dots, underscores and hyphens. -/
structure SafeName (base : JsStr) : Prop where
  ne_nil : base ≠ []
  ne_dot : base ≠ js "."
  ne_dots : base ≠ js ".."
  chars : ∀ u ∈ base, isFileChar u = true
  length_le : base.length ≤ 255

theorem sanitizeFilename_safe {name base : JsStr} (h : sanitizeFilename name = some base) :
    SafeName base := by
  unfold sanitizeFilename at h
  dsimp only at h
  split_ifs at h with hnul hdots hchars hlength
  cases h
  rw [not_or, not_or] at hdots
  exact ⟨hdots.1, hdots.2.1, hdots.2.2, by simpa using hchars, by omega⟩

section

variable {limits : Limits}

/-- The loop keeps variables of the environment, in their order. -/
theorem cleanEnv_sublist (count : ℕ) (env : List (JsStr × JsStr)) :
    (cleanEnv limits count env).Sublist env := by
  induction env generalizing count with
  | nil => exact .slnil
  | cons kv env ih =>
    obtain ⟨name, value⟩ := kv
    rw [cleanEnv]
    split_ifs
    · exact List.nil_sublist _
    · exact (ih count).cons _
    · exact (ih count).cons _
    · exact (ih (count + 1)).cons_cons _

/-- It keeps only allowed names. -/
theorem cleanEnv_name {count : ℕ} {env : List (JsStr × JsStr)} {kv : JsStr × JsStr}
    (hkv : kv ∈ cleanEnv limits count env) :
    isEnvName kv.1 = true ∧ toUpperCase kv.1 ∉ disallowedEnvNames := by
  induction env generalizing count with
  | nil => cases hkv
  | cons x env ih =>
    obtain ⟨name, value⟩ := x
    rw [cleanEnv] at hkv
    split_ifs at hkv with hcount hname hallowed
    · cases hkv
    · exact ih hkv
    · exact ih hkv
    · rcases List.mem_cons.mp hkv with rfl | hkv
      · exact ⟨by simpa using hname, hallowed⟩
      · exact ih hkv

/-- It stops at the limit. -/
theorem cleanEnv_length (count : ℕ) (env : List (JsStr × JsStr)) :
    (cleanEnv limits count env).length ≤ limits.maxEnvVars - count := by
  induction env generalizing count with
  | nil => exact Nat.zero_le _
  | cons x env ih =>
    obtain ⟨name, value⟩ := x
    rw [cleanEnv]
    split_ifs with hcount
    · exact Nat.zero_le _
    · exact ih count
    · exact ih count
    · have := ih (count + 1)
      rw [List.length_cons]
      omega

/-- The clamped timeout is a whole number of seconds within the limit. -/
theorem clampTimeout_bounds {t : Option PyFloat}
    (ht : ∀ y ∈ t, (∃ n : ℤ, y = .finite n) ∧ (y = .infinity false ∨ ∃ q, y = .finite q ∧ 0 < q)) :
    ∃ n : ℕ, clampTimeout limits t = .finite n ∧ 1 ≤ n ∧ n ≤ limits.maxTimeoutSeconds := by
  cases t with
  | none => exact ⟨_, rfl, limits.default_pos, limits.default_le⟩
  | some y =>
    obtain ⟨⟨n, rfl⟩, hpos⟩ := ht y rfl
    have hn : 0 < n := by
      rcases hpos with hpos | ⟨q, hq, hpos⟩
      · cases hpos
      · cases hq
        exact_mod_cast hpos
    have hmax : 0 < limits.maxTimeoutSeconds := limits.default_pos.trans_le limits.default_le
    refine ⟨min n.toNat limits.maxTimeoutSeconds, ?_, by omega, by omega⟩
    have hcast : ((n.toNat : ℕ) : ℚ) = n := by exact_mod_cast Int.toNat_of_nonneg hn.le
    rw [Nat.cast_min, hcast]
    rfl

end

/-- What holds of an accepted request. -/
structure Normalised (limits : Limits) (q : NormalRequest) : Prop where
  language : isSupportedLanguage q.language = true
  code_ne_nil : q.code ≠ []
  code_le : byteLength (codePoints q.code) ≤ limits.maxCodeSizeBytes
  stdin_le : ∀ s ∈ q.stdin, byteLength (codePoints s) ≤ limits.maxStdinBytes
  timeout : ∃ n : ℕ, q.timeoutSeconds = .finite n ∧ 1 ≤ n ∧ n ≤ limits.maxTimeoutSeconds
  env_length : ∀ env ∈ q.envVars, env.length ≤ limits.maxEnvVars
  env_name : ∀ env ∈ q.envVars, ∀ kv ∈ env,
    isEnvName kv.1 = true ∧ toUpperCase kv.1 ∉ disallowedEnvNames
  env_value : ∀ env ∈ q.envVars, ∀ kv ∈ env, kv.2.length ≤ limits.maxEnvValueLength
  files_length : ∀ files ∈ q.files, files.length ≤ limits.maxFiles
  file_name : ∀ files ∈ q.files, ∀ file ∈ files, SafeName file.name
  file_size : ∀ files ∈ q.files, ∀ file ∈ files,
    byteLength (codePoints file.content) ≤ limits.maxFileSizeBytes

section

variable (zod : Zod) (engine : Engine) (limits : Limits)

theorem codeSchema_ok (x : Option Json) (c : JsStr) :
    zod.safeParse (codeSchema zod engine limits) x = .ok c ↔
      x = some (.str c) ∧ c ≠ [] ∧ byteLength (codePoints c) ≤ limits.maxCodeSizeBytes := by
  simp only [codeSchema, zod.refine_ok, zod.min_ok, zod.string_ok, decide_eq_true_eq, and_assoc,
    Nat.one_le_iff_ne_zero, ne_eq, List.length_eq_zero_iff]

theorem languageSchema_ok (x : Option Json) (s : JsStr) :
    zod.safeParse (languageSchema zod) x = .ok s ↔
      x = some (.str s) ∧ isSupportedLanguage s = true := by
  simp only [languageSchema, zod.refine_ok, zod.string_ok]

theorem stdinSchema_ok (x : Option Json) (y : Option JsStr) :
    zod.safeParse (stdinSchema zod engine limits) x = .ok y ↔
      x = none ∧ y = none ∨ ∃ s, x = some (.str s) ∧ y = some s ∧
        byteLength (codePoints s) ≤ limits.maxStdinBytes := by
  simp only [stdinSchema, zod.optional_ok, zod.refine_ok, zod.string_ok, decide_eq_true_eq]
  grind

/-- The timeout is the default, or a positive whole number up to the maximum. -/
theorem timeoutSchema_ok {x : Option Json} {y : PyFloat}
    (h : zod.safeParse (timeoutSchema zod limits) x = .ok y) :
    ∃ n : ℕ, y = .finite n ∧ 1 ≤ n ∧ n ≤ limits.maxTimeoutSeconds := by
  simp only [timeoutSchema, zod.transform_ok, zod.optional_ok, zod.positive_ok, zod.int_ok] at h
  obtain ⟨t, ht, rfl⟩ := h
  refine clampTimeout_bounds fun y hy => ?_
  rcases ht with ⟨-, rfl⟩ | ⟨-, a, ⟨⟨-, hint⟩, hpos⟩, rfl⟩
  · cases hy
  · cases hy
    exact ⟨hint, hpos⟩

/-- The variables are those of the input that the loop keeps. -/
theorem envSchema_ok {x : Option Json} {y : Option (List (JsStr × JsStr))}
    (h : zod.safeParse (envSchema zod limits) x = .ok y) {env : List (JsStr × JsStr)}
    (henv : env ∈ y) :
    ∃ kvs entries, x = some (.obj kvs) ∧
      List.Forall₂ (fun kv e => kv.1 = e.1 ∧ kv.2 = .str e.2 ∧
        e.2.length ≤ limits.maxEnvValueLength) kvs entries ∧
      env = cleanEnv limits 0 (entries.filter fun e => e.1 ≠ js "__proto__") := by
  simp only [envSchema, zod.transform_ok, zod.optional_ok, zod.record_ok, zod.max_ok,
    zod.string_ok, Option.some.injEq] at h
  obtain ⟨env, hx, rfl⟩ := h
  rcases hx with ⟨-, rfl⟩ | ⟨-, _, ⟨kvs, entries, hx, hall, rfl⟩, rfl⟩
  · cases henv
  · cases henv
    exact ⟨kvs, entries, hx, hall, rfl⟩

theorem exists_of_mem_right {α β : Type} {R : α → β → Prop} {as : List α} {bs : List β}
    (h : List.Forall₂ R as bs) {b : β} (hb : b ∈ bs) : ∃ a ∈ as, R a b := by
  induction h with
  | nil => cases hb
  | cons hab _ ih =>
    rcases List.mem_cons.mp hb with rfl | hb
    · exact ⟨_, List.mem_cons_self, hab⟩
    · obtain ⟨a, ha, hR⟩ := ih hb
      exact ⟨a, List.mem_cons_of_mem _ ha, hR⟩

theorem map_fst_eq {α β : Type} {R : JsStr × α → JsStr × β → Prop}
    (hR : ∀ kv e, R kv e → kv.1 = e.1) {kvs : List (JsStr × α)} {entries : List (JsStr × β)}
    (h : List.Forall₂ R kvs entries) : kvs.map Prod.fst = entries.map Prod.fst := by
  induction h with
  | nil => rfl
  | cons hkv _ ih => rw [List.map_cons, List.map_cons, ih, hR _ _ hkv]

/-- The names of the variables are distinct, as the keys of the input are. -/
theorem envSchema_nodup {x : Json} {y : Option (List (JsStr × JsStr))}
    (h : zod.safeParse (envSchema zod limits) (some x) = .ok y) (hx : x.KeysDistinct)
    {env : List (JsStr × JsStr)} (henv : env ∈ y) : (env.map Prod.fst).Nodup := by
  obtain ⟨kvs, entries, hobj, hall, rfl⟩ := envSchema_ok zod limits h henv
  cases hobj
  have hnodup : (entries.map Prod.fst).Nodup := by
    rw [← map_fst_eq (fun _ _ h => h.1) hall]
    exact hx.1
  exact (((cleanEnv_sublist 0 _).trans List.filter_sublist).map Prod.fst).nodup hnodup

theorem fileIssues_eq_nil {files : List JsFile} (h : fileIssues engine limits files = []) :
    ∀ file ∈ files, sanitizeFilename file.name ≠ none ∧
      byteLength (codePoints file.content) ≤ limits.maxFileSizeBytes := by
  intro file hfile
  obtain ⟨i, hi⟩ := List.mem_iff_getElem?.mp hfile
  have hnone := List.flatMap_eq_nil_iff.mp h (file, i) (List.mk_mem_zipIdx_iff_getElem?.mpr hi)
  obtain ⟨hname, hsize⟩ := List.append_eq_nil_iff.mp hnone
  constructor
  · intro h
    simp [h] at hname
  · by_contra h
    simp [Nat.lt_of_not_le h] at hsize

/-- The files are those of the input, with sanitised names. -/
theorem filesSchema_ok {x : Option Json} {y : Option (List JsFile)}
    (h : zod.safeParse (filesSchema zod engine limits) x = .ok y) {files : List JsFile}
    (hfiles : files ∈ y) :
    ∃ raw, files = sanitizeFiles raw ∧ raw.length ≤ limits.maxFiles ∧
      ∀ file ∈ raw, sanitizeFilename file.name ≠ none ∧
        byteLength (codePoints file.content) ≤ limits.maxFileSizeBytes := by
  simp only [filesSchema, zod.transform_ok, zod.superRefine_ok, zod.optional_ok,
    zod.arrayMax_ok] at h
  obtain ⟨_, ⟨⟨-, rfl⟩ | ⟨-, raw, ⟨-, hlength⟩, rfl⟩, hissues⟩, rfl⟩ := h
  · cases hfiles
  · cases hfiles
    exact ⟨raw, rfl, hlength, fileIssues_eq_nil engine limits hissues⟩

theorem mem_sanitizeFiles {raw : List JsFile} {file : JsFile} (hfile : file ∈ sanitizeFiles raw)
    (hraw : ∀ file ∈ raw, sanitizeFilename file.name ≠ none) :
    ∃ file' ∈ raw, sanitizeFilename file'.name = some file.name ∧ file'.content = file.content := by
  obtain ⟨file', hfile', rfl⟩ := List.mem_map.mp hfile
  obtain ⟨base, hbase⟩ := Option.ne_none_iff_exists'.mp (hraw file' hfile')
  exact ⟨file', hfile', by rw [hbase, Option.getD_some], rfl⟩

/-- The fields of an accepted request are accepted by their schemas. -/
theorem validateExecutionRequest_ok {input : Option Json} {q : NormalRequest}
    (h : validateExecutionRequest zod engine limits input = .ok q) :
    ∃ kvs, input = some (.obj kvs) ∧
      zod.safeParse (languageSchema zod) (ownProperty kvs (js "language")) = .ok q.language ∧
      zod.safeParse (codeSchema zod engine limits) (ownProperty kvs (js "code")) = .ok q.code ∧
      zod.safeParse (stdinSchema zod engine limits) (ownProperty kvs (js "stdin")) = .ok q.stdin ∧
      zod.safeParse (timeoutSchema zod limits) (ownProperty kvs (js "timeout_seconds")) =
        .ok q.timeoutSeconds ∧
      zod.safeParse (envSchema zod limits) (ownProperty kvs (js "env_vars")) = .ok q.envVars ∧
      zod.safeParse (filesSchema zod engine limits) (ownProperty kvs (js "files")) =
        .ok q.files := by
  unfold validateExecutionRequest at h
  split at h
  · next value hvalue =>
    cases h
    obtain ⟨fields, hfields, rfl⟩ := (zod.transform_ok _ _ _ _).mp hvalue
    obtain ⟨kvs, hkvs, haccepts, -⟩ := (zod.strictObject_ok _ _ _).mp hfields
    obtain ⟨language, code, stdin, timeout, env, files, -⟩ := haccepts
    exact ⟨kvs, hkvs, language, code, stdin, timeout, env, files⟩
  · cases h

/-- An accepted request is normalised. -/
theorem normalised_of_ok {input : Option Json} {q : NormalRequest}
    (h : validateExecutionRequest zod engine limits input = .ok q) : Normalised limits q := by
  obtain ⟨kvs, -, hlanguage, hcode, hstdin, htimeout, henv, hfiles⟩ :=
    validateExecutionRequest_ok zod engine limits h
  obtain ⟨-, hcode⟩ := (codeSchema_ok zod engine limits _ _).mp hcode
  refine ⟨((languageSchema_ok zod _ _).mp hlanguage).2, hcode.1, hcode.2, ?_,
    timeoutSchema_ok zod limits htimeout, ?_, ?_, ?_, ?_, ?_, ?_⟩
  · intro s hs
    rcases (stdinSchema_ok zod engine limits _ _).mp hstdin with ⟨-, hnone⟩ | ⟨s', -, hsome, hle⟩
    · rw [hnone] at hs
      cases hs
    · rw [hsome] at hs
      cases hs
      exact hle
  · intro env hy
    obtain ⟨kvs, entries, -, -, rfl⟩ := envSchema_ok zod limits henv hy
    exact cleanEnv_length 0 _
  · intro env hy kv hkv
    obtain ⟨kvs, entries, -, -, rfl⟩ := envSchema_ok zod limits henv hy
    exact cleanEnv_name hkv
  · intro env hy kv hkv
    obtain ⟨kvs, entries, -, hall, rfl⟩ := envSchema_ok zod limits henv hy
    obtain ⟨_, -, -, -, hle⟩ :=
      exists_of_mem_right hall (List.mem_of_mem_filter ((cleanEnv_sublist 0 _).subset hkv))
    exact hle
  · intro files hy
    obtain ⟨raw, rfl, hlength, -⟩ := filesSchema_ok zod engine limits hfiles hy
    simpa [sanitizeFiles] using hlength
  · intro files hy file hfile
    obtain ⟨raw, rfl, -, hraw⟩ := filesSchema_ok zod engine limits hfiles hy
    obtain ⟨file', -, hname, -⟩ := mem_sanitizeFiles hfile fun file hfile => (hraw file hfile).1
    exact sanitizeFilename_safe hname
  · intro files hy file hfile
    obtain ⟨raw, rfl, -, hraw⟩ := filesSchema_ok zod engine limits hfiles hy
    obtain ⟨file', hfile', -, hcontent⟩ :=
      mem_sanitizeFiles hfile fun file hfile => (hraw file hfile).1
    exact hcontent ▸ (hraw file' hfile').2

theorem keysDistinct_ownProperty {kvs : List (JsStr × Json)} (hkvs : (Json.obj kvs).KeysDistinct)
    {key : JsStr} {v : Json} (hv : ownProperty kvs key = some v) : v.KeysDistinct := by
  obtain ⟨kv, hkv, rfl⟩ := Option.map_eq_some_iff.mp hv
  exact membersDistinct_iff.mp hkvs.2 kv (List.mem_of_find?_eq_some hkv)

/-- The environment of an accepted request has distinct names. -/
theorem env_nodup_of_ok {input : Json} {q : NormalRequest}
    (h : validateExecutionRequest zod engine limits (some input) = .ok q)
    (hinput : input.KeysDistinct) : ∀ env ∈ q.envVars, (env.map Prod.fst).Nodup := by
  obtain ⟨kvs, hkvs, -, -, -, -, henv, -⟩ := validateExecutionRequest_ok zod engine limits h
  cases hkvs
  intro env hy
  cases hown : ownProperty kvs (js "env_vars") with
  | none =>
    obtain ⟨_, _, hnone, -⟩ := envSchema_ok zod limits henv hy
    rw [hown] at hnone
    cases hnone
  | some v =>
    rw [hown] at henv
    exact envSchema_nodup zod limits henv (keysDistinct_ownProperty hinput hown) hy

end

end CodeInterpreter.Api
