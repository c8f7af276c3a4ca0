import CodeInterpreter.Python.Value

/-!
# The shared data contract

The types that the API server and the worker exchange through Redis (`api/src/types/index.ts`,
`worker/sandbox/types.py`), and the decoding of a request by the worker.

The time stamps of a record and of a payload are left out of the records: nothing reads them.

## Main definitions

* `JobStatus`, `terminalStatuses`.
* `ExecutionRequest`, `ExecutionRequest.fromDict`: the worker's request and its decoder.
* `ApiRequest`, `JobPayload`: what the API enqueues, with the JSON objects it writes.
* `ExecutionResult`, `JobRecord`, `Principal`, `AppConfig`, `WorkerConfig`.
-/

namespace CodeInterpreter

/-- Job lifecycle states. -/
inductive JobStatus
  | pending
  | running
  | completed
  | failed
  | timeout
  | killed
  deriving DecidableEq

/-- The text of a status in JSON. -/
def JobStatus.text : JobStatus → Str
  | .pending => str "PENDING"
  | .running => str "RUNNING"
  | .completed => str "COMPLETED"
  | .failed => str "FAILED"
  | .timeout => str "TIMEOUT"
  | .killed => str "KILLED"

/-- Terminal states: a job in one of these will never transition again. -/
def terminalStatuses : List JobStatus := [.completed, .failed, .timeout, .killed]

/-- `TERMINAL_STATUSES.includes(status)`. -/
def JobStatus.Terminal (s : JobStatus) : Prop := s ∈ terminalStatuses

instance (s : JobStatus) : Decidable s.Terminal := inferInstanceAs (Decidable (s ∈ _))

theorem not_terminal_pending : ¬ JobStatus.pending.Terminal := by decide

/-- User tiers. -/
inductive UserTier
  | anonymous
  | authenticated
  | premium
  deriving DecidableEq

/-- How a principal authenticated. -/
inductive AuthMethod
  | jwt
  | apiKey
  | anonymous
  deriving DecidableEq

/-- The authenticated principal of a request. The user id is the declared string; what
`authenticatePrincipal` can really return is in `Api.AuthPrincipal`. -/
structure Principal where
  userId : Str
  tier : UserTier
  authMethod : AuthMethod
  deriving DecidableEq

/-- An additional file mounted next to the user code. -/
structure InputFile where
  name : Str
  content : Str
  deriving DecidableEq

/-- The worker's view of a submission. -/
structure ExecutionRequest where
  language : Str
  code : Str
  stdin : Str
  timeoutSeconds : ℤ
  envVars : List (Str × Str)
  files : List InputFile
  deriving DecidableEq

namespace ExecutionRequest

variable (py : Python)

/-- `[InputFile(name=str(f["name"]), content=str(f["content"])) for f in raw_files]`. Iterating
over a string or over a `dict` gives strings, which have no string subscripts. -/
def readFiles : Value → Except Exc (List InputFile)
  | .list xs => xs.mapM fun f => do
    let name ← f.getItem (str "name")
    let content ← f.getItem (str "content")
    return ⟨py.str name, py.str content⟩
  | .str s => if s.isEmpty then .ok [] else .error .typeError
  | .dict kvs => if kvs.isEmpty then .ok [] else .error .typeError
  | _ => .error .typeError

/-- `{str(k): str(v) for k, v in env.items()}`. -/
def readEnv : Value → Except Exc (List (Str × Str))
  | .dict kvs => .ok (kvs.map fun kv => (kv.1, py.str kv.2))
  | _ => .error .attributeError

/-- Build a request from the JSON payload enqueued by the API. -/
def fromDict (data : Value) : Except Exc ExecutionRequest := do
  let rawFiles ← data.get (str "files")
  let files ← readFiles py ((rawFiles.getD .none).orElse (.list []))
  let language ← data.getItem (str "language")
  let code ← data.getItem (str "code")
  let stdin ← data.get (str "stdin")
  let timeout ← data.get (str "timeout_seconds")
  let timeoutSeconds ← py.int ((timeout.getD .none).orElse (.int 10))
  let env ← data.get (str "env_vars")
  let envVars ← readEnv py ((env.getD .none).orElse (.dict []))
  return {
    language := py.str language
    code := py.str code
    stdin := py.str ((stdin.getD .none).orElse (.str []))
    timeoutSeconds := timeoutSeconds
    envVars := envVars
    files := files }

end ExecutionRequest

/-- A validated submission as the API holds it. -/
structure ApiRequest where
  language : Str
  code : Str
  stdin : Option Str
  timeoutSeconds : ℕ
  envVars : Option (List (Str × Str))
  files : Option (List InputFile)
  deriving DecidableEq

/-- The JSON object of an input file. -/
def InputFile.toValue (f : InputFile) : Value :=
  .dict [(str "name", .str f.name), (str "content", .str f.content)]

/-- The JSON object of a request; absent fields are not written. -/
def ApiRequest.toValue (q : ApiRequest) : Value :=
  .dict <|
    [(str "language", .str q.language), (str "code", .str q.code)]
    ++ (q.stdin.map fun s => (str "stdin", Value.str s)).toList
    ++ [(str "timeout_seconds", .int q.timeoutSeconds)]
    ++ (q.envVars.map fun env =>
        (str "env_vars", Value.dict (env.map fun kv => (kv.1, .str kv.2)))).toList
    ++ (q.files.map fun fs => (str "files", Value.list (fs.map InputFile.toValue))).toList

/-- The payload field of a stream entry. -/
structure JobPayload where
  jobId : Str
  userId : Str
  language : Str
  request : ApiRequest
  traceparent : Str
  submittedAt : Str
  deriving DecidableEq

/-- The JSON object of a payload. -/
def JobPayload.toValue (p : JobPayload) : Value :=
  .dict [(str "job_id", .str p.jobId), (str "user_id", .str p.userId),
    (str "language", .str p.language), (str "request", p.request.toValue),
    (str "traceparent", .str p.traceparent), (str "submitted_at", .str p.submittedAt)]

/-- A file produced by the execution. -/
structure OutputFile where
  name : Str
  sizeBytes : ℕ
  url : Str
  deriving DecidableEq

/-- The result of an execution. -/
structure ExecutionResult where
  jobId : Str
  status : JobStatus
  stdout : Str := []
  stderr : Str := []
  exitCode : Option ℤ := none
  wallTimeMs : ℕ := 0
  cpuTimeMs : ℕ := 0
  memoryBytes : ℕ := 0
  oomKilled : Bool := false
  timedOut : Bool := false
  truncated : Bool := false
  files : List OutputFile := []
  deriving DecidableEq

/-- The record of a job, persisted in Redis. -/
structure JobRecord where
  jobId : Str
  userId : Str
  language : Str
  status : JobStatus
  request : ApiRequest
  result : Option ExecutionResult
  workerId : Option Str
  retries : ℕ
  deriving DecidableEq

/-- The settings of the API server that the model reads. -/
structure AppConfig where
  maxConcurrentJobs : ℕ
  maxConcurrentJobsPremium : ℕ
  maxTimeoutSeconds : ℕ

/-- The settings of a worker that the model reads; `minio` says whether a MinIO client could be
built. -/
structure WorkerConfig where
  workerId : Str
  claimMinIdleMs : ℕ
  maxRetries : ℕ
  minio : Bool

/-- Lifetime of a stored result, in seconds. -/
def resultTtlSeconds : ℕ := 3600

/-- Lifetime of a job record, in seconds. -/
def recordTtlSeconds : ℕ := 60 * 60 * 2

/-- Lifetime of the cancellation flag, in seconds. -/
def cancelTtlSeconds : ℕ := 120

/-- Cap on the dead-letter stream. -/
def deadLetterMaxlen : ℕ := 1000

end CodeInterpreter
