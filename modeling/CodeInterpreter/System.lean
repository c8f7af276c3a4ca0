import CodeInterpreter.Api.Routes
import CodeInterpreter.Worker.Daemon

/-!
# The whole system

The API server and any number of workers as one system of asynchronous programs over Redis. The
requests that start a program are the HTTP routes, the events of WebSocket connections and the
iterations of the workers' consume loops; a dispatched message forks a run of `_process`.

`generateJobId` draws ULIDs that were not drawn before, and a connection handles one first
message: these two are the conditions under which a request is admitted.

## Main definitions

* `Deployment`, `Role`, `Request`, `system`.
* `Trace`, `History`, and the facts read off them: `deliveriesOf`, `Written`, `Submitted`.
-/

namespace CodeInterpreter

open Async

/-- The settings shared by the API server and the workers; `connPrincipal` says who authenticated
each WebSocket connection. -/
structure Deployment where
  py : Python
  app : AppConfig
  claimMinIdleMs : ℕ
  maxRetries : ℕ
  minio : Bool
  connPrincipal : ℕ → Principal

/-- The settings of one worker. -/
def Deployment.worker (d : Deployment) (workerId : Str) : WorkerConfig where
  workerId := workerId
  claimMinIdleMs := d.claimMinIdleMs
  maxRetries := d.maxRetries
  minio := d.minio

/-- What a process is doing. -/
inductive Role
  | submission (sub : Api.Submission)
  | getJob (principal : Principal) (jobId : Str)
  | deleteJob (principal : Principal) (jobId : Str)
  | stream (conn : ℕ) (frame : Api.StartFrame)
  | streamEnd (conn : ℕ)
  | consumer (workerId : Str)
  | delivery (workerId : Str) (message : QueueMessage)

/-- The role is a run of `_process`. -/
def Role.isDelivery : Role → Bool
  | .delivery _ _ => true
  | _ => false

/-- What can start a program from outside. `streamFinish` is an error of the socket, its lifetime
timer, a client too slow or the end of the job. -/
inductive Request
  | postExecute (sub : Api.Submission) (polls : ℕ)
  | postExecuteAsync (sub : Api.Submission)
  | getJob (principal : Principal) (jobId : Str)
  | deleteJob (principal : Principal) (jobId : Str)
  | streamStart (conn : ℕ) (ip : Str) (frame : Api.StartFrame)
  | streamClose (conn : ℕ)
  | streamFinish (conn : ℕ)
  | consume (workerId : Str) (ready : Bool) (batch : ℕ) (again : Option ℕ)

namespace Request

/-- The job id drawn for a request. -/
def jobId : Request → Option Str
  | .postExecute sub _ => some sub.jobId
  | .postExecuteAsync sub => some sub.jobId
  | .streamStart _ _ (.start sub) => some sub.jobId
  | _ => none

/-- The connection whose first message the request is. -/
def started : Request → Option ℕ
  | .streamStart conn _ _ => some conn
  | _ => none

/-- Job ids are ULIDs and are drawn once; a connection is started once. -/
def admits (earlier : List Request) (q : Request) : Bool :=
  (q.jobId.all fun j => Api.isUlid j && earlier.all fun q' => q'.jobId != some j) &&
    (q.started.all fun c => earlier.all fun q' => q'.started != some c)

end Request

variable (d : Deployment)

/-- The program of a request. -/
def handler : Request → Role × Prog Unit
  | .postExecute sub polls => (.submission sub, Api.postExecute d.app sub polls)
  | .postExecuteAsync sub => (.submission sub, Api.postExecuteAsync d.app sub)
  | .getJob principal jobId => (.getJob principal jobId, Api.getJob principal jobId)
  | .deleteJob principal jobId => (.deleteJob principal jobId, Api.deleteJob principal jobId)
  | .streamStart conn ip frame =>
    (.stream conn frame, Api.onStart d.app (d.connPrincipal conn) ip conn frame)
  | .streamClose conn => (.streamEnd conn, Api.cleanup (d.connPrincipal conn) conn)
  | .streamFinish conn => (.streamEnd conn, Api.finish (d.connPrincipal conn) conn)
  | .consume workerId ready batch again =>
    (.consumer workerId, Worker.consume (d.worker workerId) ready batch again)

/-- `asyncio.create_task(self._process(message))`. -/
def fork : Role → Cmd → List (Role × Prog Unit)
  | .consumer workerId, .createTask message =>
    [(.delivery workerId message, Worker.process d.py (d.worker workerId) message)]
  | _, _ => []

/-- The system of the API server, the workers and Redis. -/
def system : Async.System World Cmd Reply Exc Role Oracle Request where
  init := World.init
  exec := World.exec
  mayFail := mayFail
  fork := fork d
  handler := handler d
  admits := Request.admits

/-- A state of the system. -/
abbrev Sys := Async.State World Cmd Reply Exc Role Request

/-- What can happen next. -/
abbrev Act := Async.Action Exc Oracle Request

/-- The trace of a process, newest event first. -/
abbrev Trace := List (Event Cmd Reply Exc)

/-- The history of the system, newest occurrence first. -/
abbrev History := List (Occurrence Cmd Reply Exc Role)

/-- The submission that a process handles. One that arrives on a WebSocket is made for the
principal of the connection. -/
def submissionOf : Role → Option Api.Submission
  | .submission sub => some sub
  | .stream conn (.start sub) => some { sub with principal := d.connPrincipal conn }
  | _ => none

/-! ### Facts about the past -/

/-- The entries that an answered command delivered to the worker that issued it. -/
def deliveriesOf : Event Cmd Reply Exc → List Delivery
  | ⟨.xreadgroup _ _, .ok ds⟩ => ds
  | ⟨.xclaim _ _ _, .ok ds⟩ => ds
  | _ => []

/-- A result of the job has been written under its result key. -/
def Written (hist : History) (jobId : Str) : Prop :=
  ∃ o ∈ hist, o.applied = true ∧ ∃ r, o.event.cmd = .setResult jobId r

/-- The payload has been committed to the job stream. -/
def Enqueued (hist : History) (payload : JobPayload) : Prop :=
  ∃ o ∈ hist, o.applied = true ∧ ∃ r, o.event.cmd = .enqueue payload r

/-- The user has submitted the job. -/
def Submitted (hist : History) (jobId userId : Str) : Prop :=
  ∃ p, Enqueued hist p ∧ p.jobId = jobId ∧ p.userId = userId

/-- The command writes a result of the job. -/
def Cmd.stores (jobId : Str) : Cmd → Bool
  | .setResult j _ => j == jobId
  | _ => false

/-- The command enqueues the payload. -/
def Cmd.enqueues (payload : JobPayload) : Cmd → Bool
  | .enqueue p _ => p == payload
  | _ => false

theorem Cmd.stores_iff {jobId : Str} {c : Cmd} :
    c.stores jobId = true ↔ ∃ r, c = .setResult jobId r := by
  cases c <;> simp [Cmd.stores]

theorem Cmd.enqueues_iff {payload : JobPayload} {c : Cmd} :
    c.enqueues payload = true ↔ ∃ r, c = .enqueue payload r := by
  cases c <;> simp [Cmd.enqueues]

instance (hist : History) (jobId : Str) : Decidable (Written hist jobId) :=
  decidable_of_iff (∃ o ∈ hist, o.applied = true ∧ o.event.cmd.stores jobId = true)
    (by simp only [Written, Cmd.stores_iff])

instance (hist : History) (payload : JobPayload) : Decidable (Enqueued hist payload) :=
  decidable_of_iff (∃ o ∈ hist, o.applied = true ∧ o.event.cmd.enqueues payload = true)
    (by simp only [Enqueued, Cmd.enqueues_iff])

theorem Written.cons {hist : History} {jobId : Str} (h : Written hist jobId)
    (o : Occurrence Cmd Reply Exc Role) : Written (o :: hist) jobId := by
  obtain ⟨o', ho', h⟩ := h
  exact ⟨o', List.mem_cons_of_mem o ho', h⟩

theorem Enqueued.cons {hist : History} {p : JobPayload} (h : Enqueued hist p)
    (o : Occurrence Cmd Reply Exc Role) : Enqueued (o :: hist) p := by
  obtain ⟨o', ho', h⟩ := h
  exact ⟨o', List.mem_cons_of_mem o ho', h⟩

/-! ### A deployment with the default settings -/

/-- Anna, an authenticated user. -/
def anna : Principal := ⟨str "anna", .authenticated, .jwt⟩

/-- The default settings, with MinIO off and all connections opened by Anna. -/
def Deployment.default : Deployment where
  py := samplePython
  app := ⟨5, 25, 30⟩
  claimMinIdleMs := 60000
  maxRetries := 3
  minio := false
  connPrincipal _ := anna

/-- A program that prints one line. -/
def sampleRequest : ApiRequest where
  language := str "python"
  code := str "print(1)"
  stdin := none
  timeoutSeconds := 10
  envVars := none
  files := none

/-- Anna submits a program under the given job id. -/
def sampleSubmission (jobId : Str) : Api.Submission where
  principal := anna
  request := sampleRequest
  jobId := jobId
  traceparent := []
  nowIso := str "2024-01-01T00:00:00.000Z"
  groupEnsured := true

/-- A ULID. -/
def sampleId : Str := str "01ARZ3NDEKTSV4RRFFQ69G5FAV"

/-- The state that a list of actions leads to under the default settings. -/
def sampleRun (as : List Act) : Sys := (system .default).run (system .default).start as

/-- The next command of a process gets its reply. -/
def ok (i : ℕ) : Act := .answer i (.reply {})

theorem reachable_sampleRun (as : List Act)
    (h : ((system .default).runs (fun _ _ => true) (system .default).start as).isSome = true) :
    (system .default).Reachable (sampleRun as) := System.reachable_run as h

/-- An asynchronous submission, up to its enqueue. -/
def submitSample : List Act :=
  [.arrive (.postExecuteAsync (sampleSubmission sampleId)), ok 0, ok 0]

/-- The result of the sample job. -/
def sampleResult : ExecutionResult :=
  { jobId := sampleId, status := .completed, stdout := str "1", exitCode := some 0 }

/-- A worker picks the sample job up and runs it to the end. -/
def completeSample : List Act :=
  [.arrive (.consume (str "worker-1") true 1 (some 1)), ok 1, ok 1, ok 1, ok 1] ++
  [ok 2, ok 2, ok 2, ok 2, ok 2, .answer 2 (.reply { execution := ⟨[], .ok sampleResult⟩ })] ++
  List.replicate 8 (ok 2)

end CodeInterpreter
