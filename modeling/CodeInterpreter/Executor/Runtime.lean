import CodeInterpreter.Types

/-!
# Language runtimes

The registry of the languages (`worker/sandbox/image_registry.py`) and their resource envelopes
(`worker/sandbox/resource_limits.py`), as far as the executor reads them. Image references and
pinned digests come from the environment.

## Main definitions

* `ResourceConfig.clampTimeout`, `ResourceConfig.toDockerFlags`.
* `RuntimeConfig`, `RuntimeConfig.argvFor`, `registry`, `getRuntime`.

## Main results

* `ResourceConfig.clampTimeout_bounds`: the timeout of an execution is at least a second and at
  most the one of the language.
-/

namespace CodeInterpreter.Executor

/-- The resource envelope of a language. -/
structure ResourceConfig where
  memoryMb : ℕ
  cpuQuota : ℚ
  timeoutSeconds : ℤ
  pidsLimit : ℕ
  diskMb : ℕ
  networkEnabled : Bool := false
  outputMaxBytes : ℕ := 1048576

/-- The ceiling of all timeouts. -/
def maxTimeoutSeconds : ℤ := 60

/-- `ResourceConfig.clamp_timeout`. -/
def ResourceConfig.clampTimeout (limits : ResourceConfig) (requested : Option ℤ) : ℤ :=
  let ceiling := min limits.timeoutSeconds maxTimeoutSeconds
  match requested with
  | none => ceiling
  | some n => if n ≤ 0 then ceiling else max 1 (min n ceiling)

theorem ResourceConfig.clampTimeout_bounds {limits : ResourceConfig}
    (h : 1 ≤ limits.timeoutSeconds) (requested : Option ℤ) :
    1 ≤ limits.clampTimeout requested ∧
      limits.clampTimeout requested ≤ min limits.timeoutSeconds maxTimeoutSeconds := by
  have hceiling : 1 ≤ min limits.timeoutSeconds maxTimeoutSeconds := le_min h (by decide)
  unfold clampTimeout
  cases requested with
  | none => exact ⟨hceiling, le_refl _⟩
  | some n =>
    dsimp only
    split_ifs with hn
    · exact ⟨hceiling, le_refl _⟩
    · exact ⟨le_max_left _ _, max_le hceiling (min_le_right _ _)⟩

/-- `ResourceConfig.to_docker_flags`. -/
def ResourceConfig.toDockerFlags (py : Python) (limits : ResourceConfig) : List Str :=
  [str "--memory=" ++ decimal limits.memoryMb ++ str "m",
    str "--memory-swap=" ++ decimal limits.memoryMb ++ str "m",
    str "--cpus=" ++ py.str (.float (.finite limits.cpuQuota)),
    str "--pids-limit=" ++ decimal limits.pidsLimit,
    str "--tmpfs=/tmp:rw,noexec,nosuid,nodev,size=" ++ decimal limits.diskMb ++ str "m",
    str "--ulimit", str "nofile=256:256",
    str "--ulimit", str "nproc=" ++ decimal limits.pidsLimit ++ str ":" ++ decimal limits.pidsLimit,
    str "--ulimit", str "fsize=" ++ decimal (limits.diskMb * 1024 * 1024)]
  ++ if limits.networkEnabled then [] else [str "--network=none"]

/-- Everything the executor needs to run one language. An empty digest is not pinned. -/
structure RuntimeConfig where
  id : Str
  image : Str
  imageDigest : Str
  entrypoint : List Str
  sourceFilename : Str
  needsExecBuild : Bool
  limits : ResourceConfig

/-- `RuntimeConfig.argv_for`. -/
def RuntimeConfig.argvFor (runtime : RuntimeConfig) (sourcePath : Str) : List Str :=
  runtime.entrypoint ++ [sourcePath]

/-- The environment variables of the worker. -/
abbrev Environment := Str → Option Str

/-- `str.upper` on lower-case ASCII. -/
def upper (s : Str) : Str := s.map asciiUpper

/-- `_image_for`: the image reference and the digest. -/
def imageFor (env : Environment) (language : Str) : Str × Str :=
  let pre := (env (str "SANDBOX_IMAGE_PREFIX")).getD []
  let tag := (env (str "SANDBOX_IMAGE_TAG")).getD (str "latest")
  (pre ++ str "sandbox-runtime-" ++ language ++ str ":" ++ tag,
    (env (str "SANDBOX_DIGEST_" ++ upper language)).getD [])

/-- A language of the registry, with its resource envelope. -/
structure Spec where
  id : Str
  entrypoint : List Str
  sourceFilename : Str
  needsExecBuild : Bool := false
  limits : ResourceConfig

/-- The languages. -/
def specs : List Spec :=
  [{ id := str "python", entrypoint := [str "python3", str "-I", str "-B"]
     sourceFilename := str "main.py"
     limits := { memoryMb := 256, cpuQuota := 1 / 2, timeoutSeconds := 10, pidsLimit := 64
                 diskMb := 64 } },
    { id := str "javascript", entrypoint := [str "node"]
      sourceFilename := str "main.js"
      limits := { memoryMb := 256, cpuQuota := 1 / 2, timeoutSeconds := 10, pidsLimit := 64
                  diskMb := 64 } },
    { id := str "typescript", entrypoint := [str "/usr/local/bin/run-code"]
      sourceFilename := str "main.ts"
      limits := { memoryMb := 320, cpuQuota := 3 / 4, timeoutSeconds := 15, pidsLimit := 96
                  diskMb := 128 } },
    { id := str "java"
      entrypoint := [str "java", str "-XX:+UseSerialGC", str "-XX:TieredStopAtLevel=1", str "-Xss8m"]
      sourceFilename := str "Main.java"
      limits := { memoryMb := 512, cpuQuota := 1, timeoutSeconds := 20, pidsLimit := 128
                  diskMb := 128 } },
    { id := str "go", entrypoint := [str "/usr/local/bin/run-code"]
      sourceFilename := str "main.go", needsExecBuild := true
      limits := { memoryMb := 384, cpuQuota := 1, timeoutSeconds := 20, pidsLimit := 128
                  diskMb := 256 } },
    { id := str "ruby", entrypoint := [str "ruby", str "--disable-gems"]
      sourceFilename := str "main.rb"
      limits := { memoryMb := 256, cpuQuota := 1 / 2, timeoutSeconds := 10, pidsLimit := 64
                  diskMb := 64 } },
    { id := str "rust", entrypoint := [str "/usr/local/bin/run-code"]
      sourceFilename := str "main.rs", needsExecBuild := true
      limits := { memoryMb := 512, cpuQuota := 1, timeoutSeconds := 25, pidsLimit := 128
                  diskMb := 256 } },
    { id := str "bash", entrypoint := [str "bash"]
      sourceFilename := str "main.sh"
      limits := { memoryMb := 128, cpuQuota := 1 / 2, timeoutSeconds := 10, pidsLimit := 32
                  diskMb := 32 } }]

/-- The registry of all runtimes. -/
def registry (env : Environment) : List RuntimeConfig :=
  specs.map fun spec =>
    { id := spec.id
      image := (imageFor env spec.id).1
      imageDigest := (imageFor env spec.id).2
      entrypoint := spec.entrypoint
      sourceFilename := spec.sourceFilename
      needsExecBuild := spec.needsExecBuild
      limits := spec.limits }

/-- `get_runtime`. -/
def getRuntime (env : Environment) (language : Str) : Except Exc RuntimeConfig :=
  match (registry env).find? fun runtime => runtime.id == language with
  | some runtime => .ok runtime
  | none => .error (.unknownLanguage language)

end CodeInterpreter.Executor
