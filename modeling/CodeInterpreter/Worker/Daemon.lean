import CodeInterpreter.Redis

/-!
# The worker

The asynchronous functions of the worker as programs: the result store
(`worker/storage/result_store.py`), the publisher (`worker/queue/publisher.py`), the stream
consumer (`worker/queue/consumer.py`) and the daemon (`worker/worker.py`). Each follows its source
await by await; logging and the Prometheus counters other than `JOBS_IN_FLIGHT` are left out.

The poll task `_watch_cancel` runs next to `executor.execute` and only reads. Its polls are part
of the reply to the `execute` command, and `watchCancel` says how the task ended when the
execution did.

## Main definitions

* `patchRecord`, `setRunning`, `storeTerminal`, `releaseSlot`.
* `toMessage`, `claimStale`, `read`, `ack`, `deadLetter`.
* `runJob`, `finalizeFailed`, `finalizeCancelled`, `process`, `consume`.
-/

namespace CodeInterpreter.Worker

open Async

/-! ### The result store -/

/-- `ResultStore.get_record`. -/
def getRecord (jobId : Str) : Prog (Option JobRecord) := issue (.getRecord jobId)

/-- `ResultStore.is_cancelled`. -/
def isCancelled (jobId : Str) : Prog Bool := issue (.existsCancel jobId)

/-- `ResultStore.patch_record`: read, modify, write, with the TTL preserved. -/
def patchRecord (jobId : Str) (fields : JobRecord → JobRecord) : Prog (Option JobRecord) := do
  match ← getRecord jobId with
  | none => return none
  | some record =>
    issue (.setRecord jobId (fields record))
    return some (fields record)

/-- The fields that `set_running` updates. -/
def runningFields (workerId : Str) (record : JobRecord) : JobRecord :=
  { record with status := .running, workerId := some workerId }

/-- The fields that `store_terminal` updates. -/
def terminalFields (result : ExecutionResult) (workerId : Str) (record : JobRecord) : JobRecord :=
  { record with status := result.status, result := some result, workerId := some workerId }

/-- `ResultStore.set_running`. -/
def setRunning (jobId workerId : Str) : Prog Unit := do
  let _ ← patchRecord jobId (runningFields workerId)

/-- `ResultStore._archive`: best effort. -/
def archive (cfg : WorkerConfig) (jobId : Str) (result : ExecutionResult) : Prog Unit :=
  if cfg.minio then tryCatch (issue (.archive jobId result)) fun _ => pure () else pure ()

/-- `ResultStore.store_terminal`. -/
def storeTerminal (cfg : WorkerConfig) (jobId : Str) (result : ExecutionResult) : Prog Unit := do
  archive cfg jobId result
  issue (.setResult jobId result)
  let _ ← patchRecord jobId (terminalFields result cfg.workerId)

/-- `ResultStore.release_slot`: best effort. -/
def releaseSlot (userId jobId : Str) : Prog Unit :=
  if userId = [] then pure () else tryCatch (issue (.zrem userId jobId)) fun _ => pure ()

/-! ### The publisher -/

/-- `StreamPublisher.status`. -/
def publishStatus (jobId : Str) (status : JobStatus) : Prog Unit :=
  issue (.publish jobId (.status status))

/-- `StreamPublisher.done`. -/
def publishDone (jobId : Str) (result : ExecutionResult) : Prog Unit :=
  issue (.publish jobId
    (.done result.exitCode result.status result.wallTimeMs result.timedOut result.oomKilled))

/-! ### The consumer -/

/-- `QueueConsumer.ensure_group`; `ready` is the cached flag. -/
def ensureGroup (ready : Bool) : Prog Unit := do
  if ready then pure () else let _ ← issue .xgroupCreate

/-- `QueueConsumer._to_message` on the raw text of the payload field: a text that is no JSON
counts as an empty object, other errors of the decoder escape. -/
def toMessage (py : Python) (msgId : ℕ) (raw : Str) (deliveryCount nth : ℕ) :
    Except Exc QueueMessage :=
  match py.loads raw with
  | .ok payload => .ok ⟨msgId, payload, deliveryCount, nth⟩
  | .error .jsonDecodeError => .ok ⟨msgId, .dict [], deliveryCount, nth⟩
  | .error e => .error e

/-- The message of a delivered entry whose payload decodes. -/
def Delivery.toMessage (d : Delivery) (deliveryCount : ℕ) : QueueMessage :=
  ⟨d.id, d.payload, deliveryCount, d.nth⟩

/-- `QueueConsumer.read`. -/
def read (ready : Bool) (consumer : Str) (count : ℕ) : Prog (List QueueMessage) := do
  ensureGroup ready
  let entries : List Delivery ← issue (.xreadgroup consumer count)
  return entries.map fun d => Delivery.toMessage d 1

/-- The loop of `QueueConsumer.claim_stale` over the pending entries it was shown. -/
def claimEach (consumer : Str) (minIdle : ℕ) : List (ℕ × ℕ) → List QueueMessage →
    Prog (List QueueMessage)
  | [], claimed => return claimed
  | (msgId, deliveries) :: rest, claimed => do
    let result : List Delivery ← issue (.xclaim consumer minIdle msgId)
    claimEach consumer minIdle rest (claimed ++ result.map fun d => Delivery.toMessage d deliveries)

/-- `QueueConsumer.claim_stale`. -/
def claimStale (ready : Bool) (consumer : Str) (minIdle count : ℕ) :
    Prog (List QueueMessage) := do
  ensureGroup ready
  let pending : List (ℕ × ℕ) ← issue (.xpendingRange count minIdle)
  claimEach consumer minIdle pending []

/-- `QueueConsumer.ack`: `XACK`, then `XDEL`. -/
def ack (msgId : ℕ) : Prog Unit := do
  issue (.xack msgId)
  issue (.xdel msgId)

/-- `QueueConsumer.dead_letter`. -/
def deadLetter (message : QueueMessage) (reason : Str) : Prog Unit := do
  issue (.xaddDead ⟨message.payload, reason, message.deliveryCount⟩)
  ack message.msgId

/-- `QueueConsumer.queue_depth`: the stream may not exist yet. -/
def queueDepth : Prog ℕ :=
  tryCatch (issue .xlen) fun e => if e = .redisResponse then pure (0 : ℕ) else throw e

/-! ### Processing one job -/

variable (py : Python) (cfg : WorkerConfig)

/-- `QueueMessage.job_id`. -/
def jobIdOf (payload : Value) : Except Exc Str := do
  return py.str ((← payload.get (str "job_id")).getD (.str []))

/-- `str(message.payload.get(key) or default)`. -/
def textOf (payload : Value) (key default : Str) : Except Exc Str := do
  return py.str (((← payload.get key).getD .none).orElse (.str default))

/-- `ExecutionRequest.from_dict(message.payload["request"])`. -/
def requestOf (payload : Value) : Except Exc ExecutionRequest := do
  ExecutionRequest.fromDict py (← payload.getItem (str "request"))

/-- The exceptions that mark a payload as malformed. -/
def malformed : Exc → Bool
  | .keyError | .typeError | .valueError | .jsonDecodeError | .attributeError => true
  | _ => false

/-- The safe message that `_finalize_failed` derives from an exception. -/
def failureDetail : Exc → Str
  | .unknownLanguage _ => str "unsupported language"
  | .sandbox code =>
    if code = str "max_retries" then str "job abandoned after repeated delivery failures"
    else str "sandbox failure"
  | .imageNotFound _ | .imageIntegrity _ _ _ | .dockerUnavailable _ => str "sandbox failure"
  | _ => str "internal execution error"

/-- The result that `_finalize_failed` stores. -/
def failedResult (jobId : Str) (e : Exc) : ExecutionResult :=
  { jobId := jobId, status := .failed, stderr := failureDetail e }

/-- The result that `_finalize_cancelled` stores. -/
def cancelledResult (jobId : Str) : ExecutionResult := { jobId := jobId, status := .killed }

/-- `WorkerDaemon._finalize_cancelled`. -/
def finalizeCancelled (jobId : Str) : Prog Unit := do
  storeTerminal cfg jobId (cancelledResult jobId)
  publishDone jobId (cancelledResult jobId)

/-- `WorkerDaemon._finalize_failed`. -/
def finalizeFailed (jobId : Str) (e : Exc) : Prog Unit := do
  storeTerminal cfg jobId (failedResult jobId e)
  publishDone jobId (failedResult jobId e)

/-- How the task `_watch_cancel` has ended after its polls: it raises what a poll raised. A task
that is still polling is cancelled, and the cancellation is suppressed. -/
def watchCancel : List Poll → Except Exc Unit
  | [] => .ok ()
  | .flag true :: _ => .ok ()
  | .flag false :: polls => watchCancel polls
  | .error e :: _ => .error e

/-- `WorkerDaemon._run_job`. When awaiting the watcher raises in the `finally` block, its exception
replaces the result or the exception of the execution and the gauge is not decremented. -/
def runJob (jobId : Str) (request : ExecutionRequest) : Prog Unit := do
  issue (.inFlight 1)
  setRunning jobId cfg.workerId
  publishStatus jobId .running
  let execution : Execution ← issue (.execute request jobId)
  Program.ofExcept (watchCancel execution.polls)
  issue (.inFlight (-1))
  let result ← Program.ofExcept execution.outcome
  storeTerminal cfg jobId result
  publishDone jobId result

/-- `isinstance(exc, DockerUnavailableError)`. -/
def isDockerUnavailable : Exc → Bool
  | .dockerUnavailable _ => true
  | _ => false

/-- The `try` block of `_process`: run the job, release the slot, acknowledge. -/
def runAndAck (userId jobId : Str) (request : ExecutionRequest) (msgId : ℕ) : Prog Unit := do
  runJob cfg jobId request
  releaseSlot userId jobId
  ack msgId

/-- The handlers of that `try` block. An unavailable Docker leaves the entry pending; any other
exception is recorded as a failure. -/
def onFailure (userId jobId : Str) (msgId : ℕ) (e : Exc) : Prog Unit :=
  if isDockerUnavailable e then pure ()
  else do
    finalizeFailed cfg jobId e
    releaseSlot userId jobId
    ack msgId

/-- `WorkerDaemon._process` once the payload has been read. -/
def processRequest (userId jobId : Str) (request : ExecutionRequest) (msgId : ℕ) : Prog Unit := do
  if ← isCancelled jobId then
    finalizeCancelled cfg jobId
    releaseSlot userId jobId
    ack msgId
  else
    tryCatch (runAndAck cfg userId jobId request msgId) (onFailure cfg userId jobId msgId)

/-- The branch of `_process` for an entry over the retry limit. -/
def processExhausted (userId jobId : Str) (message : QueueMessage) : Prog Unit := do
  finalizeFailed cfg jobId (.sandbox (str "max_retries"))
  releaseSlot userId jobId
  deadLetter message (str "max_retries_exceeded")

/-- The branch of `_process` for a malformed payload. -/
def processMalformed (userId jobId : Str) (message : QueueMessage) : Prog Unit := do
  if jobId = [] then pure ()
  else finalizeFailed cfg jobId (.sandbox (str "malformed_payload"))
  releaseSlot userId jobId
  deadLetter message (str "malformed_payload")

/-- `WorkerDaemon._process`. -/
def process (message : QueueMessage) : Prog Unit := do
  let jobId ← Program.ofExcept (jobIdOf py message.payload)
  let userId ← Program.ofExcept (textOf py message.payload (str "user_id") [])
  if cfg.maxRetries < message.deliveryCount then
    processExhausted cfg userId jobId message
  else
    match requestOf py message.payload with
    | .ok request => processRequest cfg userId jobId request message.msgId
    | .error e => if malformed e then processMalformed cfg userId jobId message else throw e

/-! ### The consume loop -/

/-- `WorkerDaemon._dispatch` for each message of a batch. -/
def dispatch : List QueueMessage → Prog Unit
  | [] => pure ()
  | message :: rest => do
    issue (.createTask message)
    dispatch rest

/-- One iteration of `WorkerDaemon._consume_loop` that found free pool slots. `batch` and `again`
are the batch sizes computed from the free slots before and after reclaiming; `again` is absent
when no slot is left then. Reclaiming has made sure of the group. -/
def consume (ready : Bool) (batch : ℕ) (again : Option ℕ) : Prog Unit := do
  let _ ← queueDepth
  let stale ← claimStale ready cfg.workerId cfg.claimMinIdleMs batch
  dispatch stale
  match again with
  | none => pure ()
  | some count =>
    let new ← read true cfg.workerId count
    dispatch new

end CodeInterpreter.Worker
