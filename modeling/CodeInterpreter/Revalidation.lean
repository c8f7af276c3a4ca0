import CodeInterpreter.Filenames

/-!
# Validation of a validated request

The validator checks and rewrites the six fields of a request in different ways. What it returns is
normalised, and normalised requests are left alone: written as JSON, the value of an accepted
request is accepted again, with the same value.

## Main results

* `cleanEnv_of_allowed`, `clampTimeout_of_le`, `sanitizeFiles_of_safe`: what the transformations
  leave alone.
* `validate_toJson`: a normalised request is accepted as it is.
* `validation_fixed`: the value of an accepted request.
-/

namespace CodeInterpreter.Api

/-! ### The transformations -/

/-- Allowed variables within the limit are left alone. -/
theorem cleanEnv_of_allowed {limits : Limits} {count : ℕ} {env : List (JsStr × JsStr)}
    (hlength : env.length + count ≤ limits.maxEnvVars)
    (hname : ∀ kv ∈ env, isEnvName kv.1 = true ∧ toUpperCase kv.1 ∉ disallowedEnvNames) :
    cleanEnv limits count env = env := by
  induction env generalizing count with
  | nil => rfl
  | cons kv env ih =>
    obtain ⟨hkv, henv⟩ := List.forall_mem_cons.mp hname
    rw [List.length_cons] at hlength
    rw [cleanEnv, if_neg (by omega), if_neg (by simp [hkv.1]), if_neg hkv.2,
      ih (by omega) henv]

/-- A timeout within the maximum is left alone. -/
theorem clampTimeout_of_le {limits : Limits} {n : ℕ} (hn : n ≤ limits.maxTimeoutSeconds) :
    clampTimeout limits (some (.finite n)) = .finite n := by
  have hcast : (n : ℚ) ≤ limits.maxTimeoutSeconds := by exact_mod_cast hn
  rw [clampTimeout, Option.elim_some, mathMin, min_eq_left hcast]

/-- Files with safe names are left alone. -/
theorem sanitizeFiles_of_safe {files : List JsFile} (h : ∀ file ∈ files, SafeName file.name) :
    sanitizeFiles files = files := by
  refine (List.map_congr_left fun file hfile => ?_).trans (List.map_id _)
  rw [sanitizeFilename_of_safeName (h file hfile), Option.getD_some]
  rfl

/-- There is nothing to report about them when they are small. -/
theorem fileIssues_of_safe (engine : Engine) {limits : Limits} {files : List JsFile}
    (h : ∀ file ∈ files, SafeName file.name)
    (hsize : ∀ file ∈ files, byteLength (codePoints file.content) ≤ limits.maxFileSizeBytes) :
    fileIssues engine limits files = [] := by
  refine List.flatMap_eq_nil_iff.mpr ?_
  rintro ⟨file, i⟩ hfile
  have hmem : file ∈ files := List.mem_of_getElem? (List.mk_mem_zipIdx_iff_getElem?.mp hfile)
  simp only [sanitizeFilename_of_safeName (h file hmem), reduceCtorEq, if_false,
    if_neg (Nat.not_lt.mpr (hsize file hmem)), List.append_nil]

/-! ### The fields of a request -/

section

variable {q : NormalRequest}

theorem ownProperty_fields :
    ownProperty q.fields (js "language") = some (.str q.language) ∧
    ownProperty q.fields (js "code") = some (.str q.code) ∧
    ownProperty q.fields (js "stdin") = q.stdin.map .str ∧
    ownProperty q.fields (js "timeout_seconds") = some (.num q.timeoutSeconds) ∧
    ownProperty q.fields (js "env_vars") = q.envVars.map NormalRequest.envJson ∧
    ownProperty q.fields (js "files") =
      q.files.map fun files => .arr (files.map JsFile.toJson) := by
  unfold NormalRequest.fields
  cases q.stdin <;> cases q.envVars <;> cases q.files <;> exact ⟨rfl, rfl, rfl, rfl, rfl, rfl⟩

end

/-! ### The schemas -/

section

variable (zod : Zod) (engine : Engine) {limits : Limits}

theorem timeoutSchema_of_le {n : ℕ} (hpos : 1 ≤ n) (hn : n ≤ limits.maxTimeoutSeconds) :
    zod.safeParse (timeoutSchema zod limits) (some (.num (.finite n))) = .ok (.finite n) := by
  have hpos' : (0 : ℚ) < n := by exact_mod_cast hpos
  refine (zod.transform_ok _ _ _ _).mpr ⟨some (.finite n), ?_, (clampTimeout_of_le hn).symm⟩
  refine (zod.optional_ok _ _ _).mpr (.inr ⟨nofun, _, ?_, rfl⟩)
  refine (zod.positive_ok _ _ _ _).mpr
    ⟨(zod.int_ok _ _ _).mpr ⟨?_, n, by simp⟩, .inr ⟨n, rfl, hpos'⟩⟩
  exact (zod.number_ok _ _).mpr ⟨rfl, nofun⟩

theorem envSchema_of_allowed {env : List (JsStr × JsStr)} (hlength : env.length ≤ limits.maxEnvVars)
    (hname : ∀ kv ∈ env, isEnvName kv.1 = true ∧ toUpperCase kv.1 ∉ disallowedEnvNames)
    (hvalue : ∀ kv ∈ env, kv.2.length ≤ limits.maxEnvValueLength)
    (hproto : ∀ kv ∈ env, kv.1 ≠ js "__proto__") :
    zod.safeParse (envSchema zod limits) (some (NormalRequest.envJson env)) = .ok (some env) := by
  refine (zod.transform_ok _ _ _ _).mpr ⟨some env, ?_, ?_⟩
  · refine (zod.optional_ok _ _ _).mpr (.inr ⟨nofun, env, ?_, rfl⟩)
    refine (zod.record_ok _ _ _).mpr ⟨_, env, rfl, ?_, ?_⟩
    · rw [List.forall₂_map_left_iff]
      refine List.forall₂_same.mpr fun kv hkv => ⟨rfl, ?_⟩
      exact (zod.max_ok _ _ _ _).mpr ⟨(zod.string_ok _ _).mpr rfl, hvalue kv hkv⟩
    · exact (List.filter_eq_self.mpr fun kv hkv => by simpa using hproto kv hkv).symm
  · rw [Option.map_some, cleanEnv_of_allowed hlength hname]

theorem fileSchema_of_ne_nil {file : JsFile} (h : file.name ≠ []) :
    zod.safeParse (fileSchema zod) (some file.toJson) = .ok file := by
  refine (zod.transform_ok _ _ _ _).mpr ⟨(file.name, file.content, ()), ?_, rfl⟩
  refine (zod.object_ok _ _ _).mpr ⟨_, rfl, ?_, ?_, trivial⟩
  · exact (zod.min_ok _ _ _ _ _).mpr ⟨(zod.string_ok _ _).mpr rfl, List.length_pos_iff.mpr h⟩
  · exact (zod.string_ok _ _).mpr rfl

theorem filesSchema_of_safe {files : List JsFile} (hlength : files.length ≤ limits.maxFiles)
    (hname : ∀ file ∈ files, SafeName file.name)
    (hsize : ∀ file ∈ files, byteLength (codePoints file.content) ≤ limits.maxFileSizeBytes) :
    zod.safeParse (filesSchema zod engine limits) (some (.arr (files.map JsFile.toJson))) =
      .ok (some files) := by
  refine (zod.transform_ok _ _ _ _).mpr ⟨some files, ?_, ?_⟩
  · refine (zod.superRefine_ok _ _ _ _).mpr ⟨?_, fileIssues_of_safe engine hname hsize⟩
    refine (zod.optional_ok _ _ _).mpr (.inr ⟨nofun, files, ?_, rfl⟩)
    refine (zod.arrayMax_ok _ _ _ _).mpr ⟨(zod.array_ok _ _ _).mpr ⟨_, rfl, ?_⟩, hlength⟩
    rw [List.forall₂_map_left_iff]
    exact List.forall₂_same.mpr fun file hfile => fileSchema_of_ne_nil zod (hname file hfile).ne_nil
  · rw [Option.map_some, sanitizeFiles_of_safe hname]

/-- An absent field of the schema. -/
theorem optional_absent {α : Type} (S : zod.Schema α) :
    zod.safeParse (zod.optional S) none = .ok none :=
  (zod.optional_ok _ _ _).mpr (.inl ⟨rfl, rfl⟩)

/-- A normalised request is accepted as it is. -/
theorem validate_toJson {q : NormalRequest} (h : Normalised limits q)
    (hproto : ∀ env ∈ q.envVars, ∀ kv ∈ env, kv.1 ≠ js "__proto__") :
    validateExecutionRequest zod engine limits (some q.toJson) = .ok q := by
  obtain ⟨hlanguage, hcode, hstdin, htimeout, henv, hfiles⟩ := ownProperty_fields (q := q)
  have hparse : zod.safeParse (buildSchema zod engine limits) (some q.toJson) = .ok q := by
    refine (zod.transform_ok _ _ _ _).mpr
      ⟨(q.language, q.code, q.stdin, q.timeoutSeconds, q.envVars, q.files, ()), ?_, rfl⟩
    refine (zod.strictObject_ok _ _ _).mpr
      ⟨q.fields, rfl, ⟨?_, ?_, ?_, ?_, ?_, ?_, trivial⟩, fun kv hkv => ?_⟩
    · rw [hlanguage]
      exact (languageSchema_ok zod _ _).mpr ⟨rfl, h.language⟩
    · rw [hcode]
      exact (codeSchema_ok zod engine limits _ _).mpr ⟨rfl, h.code_ne_nil, h.code_le⟩
    · rw [hstdin]
      refine (stdinSchema_ok zod engine limits _ _).mpr ?_
      cases hq : q.stdin with
      | none => exact .inl ⟨rfl, rfl⟩
      | some s => exact .inr ⟨s, rfl, rfl, h.stdin_le s hq⟩
    · obtain ⟨n, hn, hpos, hle⟩ := h.timeout
      rw [htimeout, hn]
      exact timeoutSchema_of_le zod hpos hle
    · rw [henv]
      cases hq : q.envVars with
      | none => exact (zod.transform_ok _ _ _ _).mpr ⟨none, optional_absent zod _, rfl⟩
      | some env =>
        exact envSchema_of_allowed zod (h.env_length env hq) (h.env_name env hq)
          (h.env_value env hq) (hproto env hq)
    · rw [hfiles]
      cases hq : q.files with
      | none =>
        exact (zod.transform_ok _ _ _ _).mpr
          ⟨none, (zod.superRefine_ok _ _ _ _).mpr ⟨optional_absent zod _, rfl⟩, rfl⟩
      | some files =>
        exact filesSchema_of_safe zod engine (h.files_length files hq) (h.file_name files hq)
          (h.file_size files hq)
    · exact keys_fields.subset (List.mem_map_of_mem hkv)
  rw [validateExecutionRequest, hparse]

/-- The variables of an accepted request are those of a record, which has no key `__proto__`. -/
theorem env_ne_proto {x : Option Json} {q : NormalRequest}
    (h : validateExecutionRequest zod engine limits x = .ok q) :
    ∀ env ∈ q.envVars, ∀ kv ∈ env, kv.1 ≠ js "__proto__" := by
  obtain ⟨kvs, -, -, -, -, -, henv, -⟩ := validateExecutionRequest_ok zod engine limits h
  intro env hy kv hkv
  obtain ⟨_, entries, -, -, rfl⟩ := envSchema_ok zod limits henv hy
  have hmem := List.of_mem_filter ((cleanEnv_sublist 0 _).subset hkv)
  simpa using hmem

/-- The disallowed names are in upper case. -/
theorem toUpperCase_disallowed : ∀ name ∈ disallowedEnvNames, toUpperCase name = name := by decide

end

/-- The value of an accepted request is normalised: no letter case of the name of a variable is
disallowed, and the names of the files are fixed. As JSON it is accepted again, with the same
value. -/
theorem validation_fixed (zod : Zod) (engine : Engine) (limits : Limits) {x : Json}
    {q : NormalRequest} (h : validateExecutionRequest zod engine limits (some x) = .ok q) :
    Normalised limits q ∧
      (∀ env ∈ q.envVars, ∀ kv ∈ env, ∀ name, toUpperCase name = toUpperCase kv.1 →
        name ∉ disallowedEnvNames) ∧
      (∀ files ∈ q.files, ∀ file ∈ files, sanitizeFilename file.name = some file.name) ∧
      validateExecutionRequest zod engine limits (some q.toJson) = .ok q := by
  have hnormal := normalised_of_ok zod engine limits h
  refine ⟨hnormal, ?_, ?_, validate_toJson zod engine hnormal (env_ne_proto zod engine h)⟩
  · intro env henv kv hkv name hname hmem
    refine (hnormal.env_name env henv kv hkv).2 ?_
    rw [← hname, toUpperCase_disallowed name hmem]
    exact hmem
  · intro files hfiles file hfile
    exact sanitizeFilename_of_safeName (hnormal.file_name files hfiles file hfile)

/-- A body with a long timeout, a disallowed variable and a file in a directory. -/
theorem validation_fixed_sample :
    validateExecutionRequest acceptor sampleEngine sampleLimits
        (some (sampleBody sampleCode)) = .ok (sampleNormal sampleCode) ∧
      validateExecutionRequest acceptor sampleEngine sampleLimits
        (some (sampleNormal sampleCode).toJson) = .ok (sampleNormal sampleCode) :=
  ⟨rfl, (validation_fixed acceptor sampleEngine sampleLimits (x := sampleBody sampleCode)
    rfl).2.2.2⟩

end CodeInterpreter.Api
