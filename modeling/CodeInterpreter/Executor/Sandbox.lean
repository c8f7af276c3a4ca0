import CodeInterpreter.Async.Program
import CodeInterpreter.Executor.Runtime
import Mathlib.Data.List.Infix

/-!
# The sandbox executor

`SandboxExecutor.execute` (`worker/sandbox/executor.py`) as a program over the file system, the
Docker command line and its own tasks. Every command may raise.

`docker run` is spawned as a client process. Docker says how it ends: the container could not be
created or started, because its name is in use, the daemon is gone or for another reason, and the
client exits with 125; or the program ran and the client exits with its status (`RunEnd`).

The two pumps, the feeder of the standard input and the sampler run next to the wait for the
client. What they leave is the reply to the command that awaits them: the texts that the pumps
appended to the capture, in their order, and the last values of the sampler. What they do meanwhile,
such as the `docker inspect` by which the sampler finds its control group, is not part of the trace
of `execute`.

## Main definitions

* `OutputCapture.append`: the capture under a byte cap.
* `Cmd`, `Reply`, `Prog`: the commands of the executor.
* `verifyImage`, `prepareWorkdir`, `terminate`, `awaitCompletion`, `buildResult`, `run`, `cleanup`,
  `execute`.
-/

namespace CodeInterpreter.Executor

open Async

/-! ### Captured output -/

/-- The two streams of a program. -/
inductive OutputKind
  | stdout
  | stderr
  deriving DecidableEq

/-- `text.encode("utf-8")[:room].decode("utf-8", "ignore")`: the whole characters that fit. -/
def fitBytes : ℕ → Str → Str
  | _, [] => []
  | room, c :: s => if utf8Size c ≤ room then c :: fitBytes (room - utf8Size c) s else []

/-- The class `_OutputCapture`. -/
structure OutputCapture where
  maxBytes : ℕ
  stdout : Str := []
  stderr : Str := []
  used : ℕ := 0
  truncated : Bool := false

namespace OutputCapture

/-- Add a text to one of the streams. -/
def push (capture : OutputCapture) (kind : OutputKind) (text : Str) : OutputCapture :=
  match kind with
  | .stdout => { capture with stdout := capture.stdout ++ text }
  | .stderr => { capture with stderr := capture.stderr ++ text }

/-- `_OutputCapture.append`: the capture and the part that was kept. -/
def append (capture : OutputCapture) (kind : OutputKind) (text : Str) : OutputCapture × Str :=
  if capture.maxBytes ≤ capture.used then ({ capture with truncated := true }, [])
  else if capture.maxBytes - capture.used < byteLength text then
    let kept := fitBytes (capture.maxBytes - capture.used) text
    ({ capture.push kind kept with used := capture.maxBytes, truncated := true }, kept)
  else ({ capture.push kind text with used := capture.used + byteLength text }, text)

/-- The capture after the texts that the pumps appended. -/
def ofOutputs (maxBytes : ℕ) (outputs : List (OutputKind × Str)) : OutputCapture :=
  outputs.foldl (fun capture x => (capture.append x.1 x.2).1) { maxBytes := maxBytes }

end OutputCapture

/-! ### Commands -/

/-- Why a container could not be created or started. -/
inductive Refusal
  | nameInUse
  | daemonGone
  | other
  deriving DecidableEq

/-- How `docker run` ends: Docker refuses the container, or its program exits. -/
inductive RunEnd
  | refused (reason : Refusal)
  | exited (status : ℤ)
  deriving DecidableEq

/-- The exit status of the client process `docker run`. -/
def RunEnd.returncode : RunEnd → ℤ
  | .refused _ => 125
  | .exited status => status

/-- What `asyncio.wait` found done: the client, the cancellation, or neither after the timeout. -/
structure Race where
  finished : Option RunEnd
  cancelled : Bool

/-- The tasks of one execution. -/
inductive Task
  | feedStdin
  | pump (kind : OutputKind)
  | sampler
  | waiter
  | cancelWaiter

/-- What the sampler has written. -/
structure Sample where
  peakBytes : ℕ := 0
  cpuUsec : ℕ := 0

/-- The commands of the executor. The clock counts microseconds. -/
inductive Cmd
  | simple (argv : List Str)
  | makedirs (path : Str)
  | mkdtemp (pre dir : Str)
  | realpath (path : Str)
  | writeText (path content : Str)
  | chmod (path : Str) (mode : ℕ)
  | rmtree (path : Str)
  | clock
  | spawn (runtime : RuntimeConfig) (request : ExecutionRequest) (workdir container : Str)
  | createTask (task : Task)
  | wait (timeout : ℤ)
  | cancelTask (task : Task)
  | quiet (task : Task)
  | waitFor (seconds : ℤ)
  | killClient
  | waitClient
  | awaitPumps
  | awaitSampler

/-- The type of the reply to a command; texts are decoded as UTF-8 with replacement. -/
def Reply : Cmd → Type
  | .simple _ => ℤ × Str × Str
  | .mkdtemp _ _ => Str
  | .realpath _ => Str
  | .clock => ℕ
  | .wait _ => Race
  | .waitFor _ => Option RunEnd
  | .waitClient => RunEnd
  | .awaitPumps => List (OutputKind × Str)
  | .awaitSampler => Sample
  | _ => Unit

/-- A program of the executor. -/
abbrev Prog := Async.Program Cmd Reply Exc

/-- Issue one command. -/
abbrev issue (c : Cmd) : Prog (Reply c) := Async.perform c

/-- The settings of a worker that the executor reads. -/
structure Settings where
  env : Environment
  dockerPath : Str
  localWorkdir : Str
  sigtermGraceSeconds : ℤ

variable (py : Python) (cfg : Settings)

/-! ### The image -/

/-- `SandboxExecutor._verify_image`. -/
def verifyImage (runtime : RuntimeConfig) : Prog Unit := do
  let reply : ℤ × Str × Str ← issue (.simple [cfg.dockerPath, str "image", str "inspect",
    runtime.image, str "--format", str "\x7b\x7bjson .RepoDigests\x7d\x7d"])
  if reply.1 ≠ 0 then
    let text := py.lower reply.2.2
    if str "cannot connect to the docker daemon" <:+: text ∨
        str "is the docker daemon running" <:+: text then
      throw (.dockerUnavailable (py.strip reply.2.2))
    else throw (.imageNotFound runtime.image)
  else if runtime.imageDigest ≠ [] ∧ ¬ runtime.imageDigest <:+: reply.2.1 then
    throw (.imageIntegrity runtime.image runtime.imageDigest (py.strip reply.2.1))
  else pure ()

/-! ### The work directory -/

/-- `os.path.join` of two parts. -/
def joinPath (dir name : Str) : Str :=
  if name.head? = some 47 then name
  else if dir = [] ∨ dir.getLast? = some 47 then dir ++ name
  else dir ++ [47] ++ name

/-- `os.path.basename`: what follows the last slash. -/
def basename (path : Str) : Str := (path.reverse.takeWhile fun c => c != 47).reverse

/-- `_safe_basename`. -/
def safeBasename (name : Str) : Option Str :=
  let base := basename (name.map fun c => if c = 92 then 47 else c)
  if 0 ∈ name then none
  else if base = [] ∨ base = str "." ∨ base = str ".." then none
  else if ¬ base.all fun c => py.isalnum c || c == 46 || c == 95 || c == 45 then none
  else if 255 < base.length then none
  else some base

/-- `SandboxExecutor._write_file`. -/
def writeFile (workdir name content : Str) : Prog Unit := do
  let real : Str ← issue (.realpath (joinPath workdir name))
  let root : Str ← issue (.realpath workdir)
  if root ++ [47] <+: real then
    issue (.writeText real content)
    issue (.chmod real 0o644)
  else throw (.sandbox (str "path_escape"))

/-- The loop of `_prepare_workdir` over the input files. -/
def writeInputs (workdir : Str) : List InputFile → Prog Unit
  | [] => pure ()
  | file :: rest =>
    match safeBasename py file.name with
    | none => throw (.sandbox (str "unsafe_filename"))
    | some safe => do
      writeFile workdir safe file.content
      writeInputs workdir rest

/-- `SandboxExecutor._prepare_workdir`. -/
def prepareWorkdir (runtime : RuntimeConfig) (request : ExecutionRequest) (jobId : Str) :
    Prog Str := do
  issue (.makedirs cfg.localWorkdir)
  let workdir : Str ← issue (.mkdtemp (jobId ++ str "-") cfg.localWorkdir)
  issue (.chmod workdir 0o755)
  writeFile workdir runtime.sourceFilename request.code
  writeInputs py workdir request.files
  return workdir

/-! ### The execution -/

/-- The label that `_await_completion` returns. -/
inductive Outcome
  | completed
  | timeout
  | killed
  deriving DecidableEq

/-- How long `_terminate` waits after `SIGKILL`, in seconds. -/
def killWaitSeconds : ℤ := 5

/-- `SandboxExecutor._terminate`; it ends when the client has ended. -/
def terminate (container : Str) : Prog RunEnd := do
  let _ ← issue (.simple [cfg.dockerPath, str "kill", str "--signal=TERM", container])
  let gracefully : Option RunEnd ← issue (.waitFor cfg.sigtermGraceSeconds)
  match gracefully with
  | some e => return e
  | none =>
    let _ ← issue (.simple [cfg.dockerPath, str "kill", str "--signal=KILL", container])
    let killed : Option RunEnd ← issue (.waitFor killWaitSeconds)
    match killed with
    | some e => return e
    | none =>
      let _ ← issue (.simple [cfg.dockerPath, str "rm", str "-f", container])
      issue .killClient
      issue .waitClient

/-- Cancel the waiters that are not done, and await them. -/
def cancelPending : List Task → Prog Unit
  | [] => pure ()
  | task :: rest => do
    issue (.cancelTask task)
    issue (.quiet task)
    cancelPending rest

/-- The task that waits for the cancellation event, if the caller passed one. -/
def awaitCancel (cancellable : Bool) : Prog Unit :=
  if cancellable then issue (.createTask .cancelWaiter) else pure ()

/-- `SandboxExecutor._await_completion`: the label and the exit status of the client. The flag
says whether the caller passed a cancellation event. -/
def awaitCompletion (container : Str) (timeout : ℤ) (cancellable : Bool) :
    Prog (Outcome × RunEnd) := do
  issue (.createTask .waiter)
  awaitCancel cancellable
  let race : Race ← issue (.wait timeout)
  cancelPending
    ((if race.finished.isNone then [.waiter] else []) ++
      if cancellable && !race.cancelled then [.cancelWaiter] else [])
  match race.finished with
  | some e => return (.completed, e)
  | none =>
    let e ← terminate cfg container
    return (if cancellable && race.cancelled then .killed else .timeout, e)

/-- Exit status of a container that was killed with `SIGKILL`. -/
def sigkillExit : ℤ := 137

/-- `SandboxExecutor._build_result`. -/
def buildResult (jobId : Str) (returncode : ℤ) (outcome : Outcome) (capture : OutputCapture)
    (sample : Sample) (wallMs : ℕ) : ExecutionResult where
  jobId := jobId
  status :=
    match outcome with
    | .completed => if returncode = sigkillExit then .failed else .completed
    | .timeout => .timeout
    | .killed => .killed
  stdout := capture.stdout
  stderr := capture.stderr
  exitCode := if outcome = .completed then some returncode else none
  wallTimeMs := wallMs
  cpuTimeMs := sample.cpuUsec / 1000
  memoryBytes := sample.peakBytes
  oomKilled := outcome = .completed ∧ returncode = sigkillExit
  timedOut := outcome = .timeout
  truncated := capture.truncated

/-- `text.encode("utf-8")`; only whether it raises matters. -/
def encodeUtf8 (text : Str) : Except Exc Unit :=
  if text.any isSurrogate then .error .valueError else .ok ()

/-- `SandboxExecutor._run`. The standard input is encoded when its task is created, after the
spawn. -/
def run (runtime : RuntimeConfig) (request : ExecutionRequest) (jobId workdir container : Str)
    (cancellable : Bool) : Prog ExecutionResult := do
  let start : ℕ ← issue .clock
  issue (.spawn runtime request workdir container)
  Program.ofExcept (encodeUtf8 request.stdin)
  issue (.createTask .feedStdin)
  issue (.createTask (.pump .stdout))
  issue (.createTask (.pump .stderr))
  issue (.createTask .sampler)
  let ended ← awaitCompletion cfg container
    (runtime.limits.clampTimeout (some request.timeoutSeconds)) cancellable
  let outputs : List (OutputKind × Str) ← issue .awaitPumps
  issue (.quiet .feedStdin)
  issue (.cancelTask .sampler)
  let sample : Sample ← issue .awaitSampler
  let stop : ℕ ← issue .clock
  return buildResult jobId ended.2.returncode ended.1
    (.ofOutputs runtime.limits.outputMaxBytes outputs) sample ((stop - start) / 1000)

/-- `SandboxExecutor._cleanup`: errors of `docker rm` are suppressed. -/
def cleanup (container workdir : Str) : Prog Unit := do
  tryCatch (do
    let _ ← issue (.simple [cfg.dockerPath, str "rm", str "-f", container])) fun _ => pure ()
  issue (.rmtree workdir)

/-- `SandboxExecutor.execute`. -/
def execute (request : ExecutionRequest) (jobId : Str) (cancellable : Bool) :
    Prog ExecutionResult := do
  let runtime ← Program.ofExcept (getRuntime cfg.env request.language)
  verifyImage py cfg runtime
  let workdir ← prepareWorkdir py cfg runtime request jobId
  Program.ensuring
    (run cfg runtime request jobId workdir (str "sandbox-" ++ jobId) cancellable)
    (cleanup cfg (str "sandbox-" ++ jobId) workdir)

end CodeInterpreter.Executor
