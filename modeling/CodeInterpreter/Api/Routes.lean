import CodeInterpreter.Redis

/-!
# The API server

The asynchronous functions of the API server as programs: the concurrency quota
(`services/quota.ts`), the job queue (`services/jobQueue.ts`), the result store
(`services/resultStore.ts`), the routes (`routes/execute.ts`, `routes/jobs.ts`) and the life of a
WebSocket stream (`services/websocket.ts`). They start from an authenticated principal and, for a
submission, from a validated request with the job id that `generateJobId` drew.

A call that the circuit breaker rejects raises without reaching Redis, which is one of the ways in
which a command may be answered; the breaker itself is modelled apart. The time spent waiting is the
number of polls that come before the deadline.

## Main definitions

* `acquireSlot`, `releaseSlot`, `enqueueJob`, `waitForTerminal`.
* `submit`, `postExecute`, `postExecuteAsync`, `getJob`, `deleteJob`.
* `cleanup`, `finish`, `onStart`, `onWorkerMessage`, `onLifetime`: the handlers of a WebSocket
  connection.
-/

namespace CodeInterpreter.Api

open Async

/-! ### The concurrency quota -/

/-- Max concurrent jobs allowed for a tier. -/
def concurrencyLimitForTier (config : AppConfig) (tier : UserTier) : ℕ :=
  if tier = .premium then config.maxConcurrentJobsPremium else config.maxConcurrentJobs

/-- Lifetime of a slot, in milliseconds. -/
def slotTtlMs (config : AppConfig) : ℕ := (config.maxTimeoutSeconds + 10) * 1000

/-- `acquireSlot`: fails open on a Redis error. -/
def acquireSlot (config : AppConfig) (principal : Principal) (jobId : Str) : Prog Bool :=
  tryCatch
    (issue (.acquire principal.userId jobId (concurrencyLimitForTier config principal.tier)
      (slotTtlMs config)))
    fun _ => pure true

/-- `releaseSlot`: best effort. -/
def releaseSlot (userId jobId : Str) : Prog Unit :=
  tryCatch (issue (.zrem userId jobId)) fun _ => pure ()

/-- The text of a refused submission. -/
def concurrencyDetail (config : AppConfig) (tier : UserTier) : Str :=
  str "You may run at most " ++ decimal (concurrencyLimitForTier config tier)
    ++ str " concurrent jobs."

/-! ### The job queue -/

/-- `ensureConsumerGroup`; `ensured` is the cached flag. -/
def ensureConsumerGroup (ensured : Bool) : Prog Unit := do
  if ensured then pure () else let _ ← issue .xgroupCreate

/-- A submission: the validated request, the job id drawn for it, and what is only passed on. -/
structure Submission where
  principal : Principal
  request : ApiRequest
  jobId : Str
  traceparent : Str
  nowIso : Str
  groupEnsured : Bool

/-- The payload that `enqueueJob` writes to the stream. -/
def Submission.payload (sub : Submission) : JobPayload where
  jobId := sub.jobId
  userId := sub.principal.userId
  language := sub.request.language
  request := sub.request
  traceparent := sub.traceparent
  submittedAt := sub.nowIso

/-- The record that `enqueueJob` writes. -/
def Submission.record (sub : Submission) : JobRecord where
  jobId := sub.jobId
  userId := sub.principal.userId
  language := sub.request.language
  status := .pending
  request := sub.request
  result := none
  workerId := none
  retries := 0

/-- `enqueueJob`. -/
def enqueueJob (sub : Submission) : Prog Unit := do
  ensureConsumerGroup sub.groupEnsured
  issue (.enqueue sub.payload sub.record)

/-! ### Reading results -/

/-- `getJobRecord`. -/
def getJobRecord (jobId : Str) : Prog (Option JobRecord) := issue (.getRecord jobId)

/-- `waitForTerminal`, with the number of polls after which the deadline has not passed yet. -/
def waitForTerminal (jobId : Str) : ℕ → Prog (Option JobRecord)
  | 0 => getJobRecord jobId
  | n + 1 => do
    match ← getJobRecord jobId with
    | some last => if last.status.Terminal then return some last else waitForTerminal jobId n
    | none => waitForTerminal jobId n

/-! ### Submissions -/

variable (config : AppConfig)

/-- `submit`: whether the job was enqueued. -/
def submit (sub : Submission) : Prog Bool := do
  if ← acquireSlot config sub.principal sub.jobId then
    enqueueJob sub
    return true
  else
    issue (.respond (.problem 429 (str "Concurrency Limit")
      (concurrencyDetail config sub.principal.tier) (some (str "concurrency-limit"))))
    return false

/-- The result answered when a terminal record lacks one. -/
def fallbackResult (record : JobRecord) : ExecutionResult :=
  { jobId := record.jobId, status := record.status, timedOut := record.status = .timeout }

/-- The answer of `POST /v1/execute` to the last record seen. -/
def syncResponse : Option JobRecord → Response
  | some record =>
    if record.status = .pending ∨ record.status = .running then timeoutResponse
    else .result (record.result.getD (fallbackResult record))
  | none => timeoutResponse
where
  timeoutResponse : Response :=
    .problem 408 (str "Execution Timeout")
      (str ("The execution did not complete within the synchronous window. Use /v1/execute/async "
        ++ "and poll /v1/jobs/\x7bid\x7d for long-running jobs.")) (some (str "sync-timeout"))

/-- `POST /v1/execute`. -/
def postExecute (sub : Submission) (polls : ℕ) : Prog Unit := do
  if ← submit config sub then
    let record ← waitForTerminal sub.jobId polls
    releaseSlot sub.principal.userId sub.jobId
    issue (.respond (syncResponse record))
  else pure ()

/-- `POST /v1/execute/async`. -/
def postExecuteAsync (sub : Submission) : Prog Unit := do
  if ← submit config sub then issue (.respond (.accepted sub.jobId))
  else pure ()

/-! ### Job routes -/

/-- `ULID_RE`: 26 characters of Crockford's alphabet, in either case. -/
def isUlid (s : Str) : Bool :=
  s.length = 26 && s.all fun c =>
    let u := if 97 ≤ c ∧ c ≤ 122 then c - 32 else c
    isDigit u || (65 ≤ u && u ≤ 90 && !(str "ILOU").contains u)

/-- The refusals that `GET` and `DELETE` of a job share. -/
def invalidId : Response :=
  .problem 400 (str "Invalid job id") (str "The job id is not a valid ULID.") none

/-- No such job. -/
def notFound (jobId : Str) : Response :=
  .problem 404 (str "Not Found") (str "No job with id " ++ jobId ++ str ".") none

/-- The job belongs to another user. -/
def forbidden : Response :=
  .problem 403 (str "Forbidden") (str "This job belongs to another user.") none

/-- The job has ended already. -/
def conflict (status : JobStatus) : Response :=
  .problem 409 (str "Conflict") (str "Job is already " ++ status.text ++ str ".")
    (some (str "already-terminal"))

/-- `GET /v1/jobs/:id`. -/
def getJob (principal : Principal) (jobId : Str) : Prog Unit := do
  if isUlid jobId then
    match ← getJobRecord jobId with
    | none => issue (.respond (notFound jobId))
    | some record =>
      if record.userId = principal.userId then issue (.respond (.jobRecord record))
      else issue (.respond forbidden)
  else issue (.respond invalidId)

/-- The record that `DELETE` writes. -/
def killedRecord (record : JobRecord) : JobRecord := { record with status := .killed }

/-- `DELETE /v1/jobs/:id`. -/
def deleteJob (principal : Principal) (jobId : Str) : Prog Unit := do
  if isUlid jobId then
    match ← getJobRecord jobId with
    | none => issue (.respond (notFound jobId))
    | some record =>
      if record.userId = principal.userId then
        if record.status.Terminal then issue (.respond (conflict record.status))
        else
          issue (.cancelMulti jobId (killedRecord record))
          releaseSlot record.userId jobId
          issue (.respond (.cancelled jobId))
      else issue (.respond forbidden)
  else issue (.respond invalidId)

/-! ### WebSocket streams -/

/-- `cleanup` of a connection: only the first call does anything. -/
def cleanup (principal : Principal) (conn : ℕ) : Prog Unit := do
  let slot : Option (Option Str) ← issue (.wsCleanup conn)
  match slot with
  | none => pure ()
  | some slotJobId =>
    match slotJobId with
    | none => pure ()
    | some jobId => releaseSlot principal.userId jobId
    let subscriber : Bool ← issue (.wsClearTimer conn)
    if subscriber then tryCatch (issue (.wsQuit conn)) fun _ => pure () else pure ()
    issue (.wsClosed conn)

/-- `finish` of a connection: only the first call does anything. -/
def finish (principal : Principal) (conn : ℕ) : Prog Unit := do
  let settled : Bool ← issue (.wsSettle conn)
  if settled then pure ()
  else
    cleanup principal conn
    issue (.wsClose conn)

/-- The first frame of a client: no JSON, the JSON `null`, not a `start` frame, a request with
validation errors, or a submission, which is made for the principal of the connection. -/
inductive StartFrame
  | notJson
  | null
  | notStart
  | invalid (detail : Str)
  | start (sub : Submission)

/-- Send an error frame and close the stream. -/
def refuse (principal : Principal) (conn : ℕ) (title detail : Str) : Prog Unit := do
  let _ ← issue (.wsSend conn (.error title detail))
  finish principal conn

/-- The accepted part of `onStart`: subscribe before enqueuing, so no early output is missed. After
the subscription the handler of messages is attached to `subscriber`, which `cleanup` may have set
to `null` meanwhile. -/
def startStream (sub : Submission) (conn : ℕ) : Prog Unit := do
  issue (.wsAssignSlot conn sub.jobId)
  issue (.wsConnect conn)
  issue (.wsSubscribe conn sub.jobId)
  let attached : Bool ← issue (.wsStartTimer conn)
  if attached then
    enqueueJob sub
    let _ ← issue (.wsSend conn (.accepted sub.jobId))
  else throw .typeError

/-- `onStart`, up to its exceptions. -/
def onStartBody (principal : Principal) (ip : Str) (conn : ℕ) : StartFrame → Prog Unit
  | .notJson => refuse principal conn (str "Bad frame") (str "First frame must be valid JSON.")
  | .null => throw .typeError
  | .notStart => refuse principal conn (str "Bad frame") (str "Expected a `start` frame.")
  | .invalid detail => refuse principal conn (str "Validation Error") detail
  | .start sub => do
    let blocked : Option ℕ ← issue (.rateLimit principal ip)
    match blocked with
    | some retryAfterMs =>
      refuse principal conn (str "Too Many Requests")
        (str "Rate limit exceeded. Retry after " ++ decimal ((retryAfterMs + 999) / 1000)
          ++ str "s.")
    | none =>
      if ← acquireSlot config principal sub.jobId then
        startStream { sub with principal := principal } conn
      else
        refuse principal conn (str "Concurrency Limit") (concurrencyDetail config principal.tier)

/-- The handler of the first message of a connection. -/
def onStart (principal : Principal) (ip : Str) (conn : ℕ) (frame : StartFrame) : Prog Unit :=
  tryCatch (onStartBody config principal ip conn frame) fun e => do
    let _ ← issue (.wsSend conn (.streamError e))
    finish principal conn

/-- The frame that forwards a message of the worker. -/
def forwarded : StreamMessage → ServerFrame
  | .stdout data => .stdout data
  | .stderr data => .stderr data
  | .status status => .status status
  | .done exitCode status wallTimeMs timedOut oomKilled =>
    .exit exitCode status wallTimeMs timedOut oomKilled

/-- `onWorkerMessage`; a text that is no JSON or has another kind sends nothing. -/
def onWorkerMessage (principal : Principal) (conn : ℕ) : Option StreamMessage → Prog Unit
  | none => pure ()
  | some (.done exitCode status wallTimeMs timedOut oomKilled) => do
    let _ ← issue (.wsSend conn (forwarded (.done exitCode status wallTimeMs timedOut oomKilled)))
    finish principal conn
  | some message => do
    let ok : Bool ← issue (.wsSend conn (forwarded message))
    if ok then pure ()
    else
      refuse principal conn (str "Backpressure")
        (str "Client is too slow to consume output; closing the stream.")

/-- The callback of the lifetime timer. -/
def onLifetime (principal : Principal) (conn : ℕ) : Prog Unit :=
  refuse principal conn (str "Stream timeout") (str "Maximum stream lifetime reached.")

end CodeInterpreter.Api
