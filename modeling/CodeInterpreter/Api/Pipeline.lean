import CodeInterpreter.Async.Protocol
import CodeInterpreter.Api.Routes
import CodeInterpreter.RateLimits

/-!
# The middleware chain

A request passes `cors` and `express.json`, then the middlewares of its route one after another, and
reaches the handler of the route when all of them call `next`. What is raised on the way goes to
`errorHandler` (`app.ts`, `middleware/auth.ts`, `middleware/rateLimiter.ts`,
`middleware/validator.ts`, `middleware/errorHandler.ts`).

What the pure parts make of a request is given with it: whether `cors` or the parser of the body
raises, what `authenticatePrincipal` says about its headers and `validateExecutionRequest` about its
body.

Seen from outside, a request has arrived, the rate limiter has admitted it, or it has been answered.
`Progress.next` says what the server may do at each of these points.

## Main definitions

* `problemDetails`, `errorHandler`.
* `authMiddleware`, `rateLimitMiddleware`, `validateExecuteBody`, `chain`, `serve`.
* `Progress`, `Progress.next`.

## Main results

* `serve_answers`: a request is answered once, and Redis is asked only on behalf of who sent it and
  after the rate limiter has admitted it.
* `serve_unavailable`: a submission is answered with 503 while Redis fails.
-/

namespace CodeInterpreter.Api

open Async

/-! ### Problem details -/

/-- A field error of a refused body. -/
structure FieldProblem where
  field : Str
  message : Str
  deriving DecidableEq

/-- The members of a problem beyond those of every problem. -/
structure ProblemExtra where
  code : Option Str := none
  errors : Option (List FieldProblem) := none
  retryAfterSeconds : Option ℕ := none
  deriving DecidableEq

/-- The body of a problem. -/
structure ProblemDetails where
  type : Str
  title : Str
  status : ℕ
  detail : Str
  path : Option Str
  extra : ProblemExtra
  deriving DecidableEq

/-- The base of the types of problems. -/
def problemBase : Str := str "https://docs.sandbox.local/errors"

/-- The last segment of the type of a problem without a code. -/
def statusSlug : ℕ → Str
  | 400 => str "validation-error"
  | 401 => str "unauthenticated"
  | 403 => str "forbidden"
  | 404 => str "not-found"
  | 408 => str "request-timeout"
  | 409 => str "conflict"
  | 429 => str "rate-limited"
  | 500 => str "internal-error"
  | 503 => str "service-unavailable"
  | _ => str "error"

/-- A text that is there and not empty. -/
def nonempty (s : Option Str) : Option Str := s.filter fun s => !s.isEmpty

/-- Map an HTTP status to a stable problem type. -/
def typeForStatus (status : ℕ) (code : Option Str) : Str :=
  problemBase ++ str "/" ++ (nonempty code).getD (statusSlug status)

/-- The body that `problem` writes. -/
def problemDetails (status : ℕ) (title detail path : Str) (extra : ProblemExtra) :
    ProblemDetails where
  type := typeForStatus status extra.code
  title := title
  status := status
  detail := detail
  path := nonempty (some path)
  extra := extra

/-! ### Requests -/

/-- An error of authentication, with the status to answer. -/
structure Refusal where
  status : ℕ
  title : Str
  detail : Str

/-- A request, with what the pure parts of the chain make of it: `arrival` is what `cors` and
`express.json` do, `authenticated` is the principal of the headers, `validated` is the normal form
of the body. -/
structure HttpRequest where
  path : Str
  ip : Option Str
  remoteAddress : Option Str
  arrival : Except Exc Unit
  authenticated : Except Refusal Principal
  validated : Except (List FieldProblem) ApiRequest

/-- Best-effort client IP. -/
def clientIp (req : HttpRequest) : Str := (req.ip.or req.remoteAddress).getD (str "unknown")

/-- What the server does for a request: ask the rate limiter, write to the response, look whether it
was sent, and the commands of the routes. -/
inductive HttpCmd
  | evaluateRateLimit (principal : Principal) (ip : Str)
  | setHeader (name value : Str)
  | problem (details : ProblemDetails)
  | headersSent
  | route (c : Cmd)

/-- The type of the reply to a command. -/
def HttpReply : HttpCmd → Type
  | .evaluateRateLimit _ _ => RateLimitVerdict
  | .setHeader _ _ | .problem _ => Unit
  | .headersSent => Bool
  | .route c => Reply c

/-- The programs of the server. -/
abbrev HttpProg := Async.Program HttpCmd HttpReply Exc

/-- Their events. -/
abbrev HttpEvent := Async.Event HttpCmd HttpReply Exc

/-- Issue one command of the server. -/
def ask (c : HttpCmd) : HttpProg (HttpReply c) := Async.perform c

/-- Send a body that is a problem. -/
def sendProblem (details : ProblemDetails) : HttpProg Unit := ask (.problem details)

/-- Write a problem. -/
def problem (status : ℕ) (title detail path : Str) (extra : ProblemExtra) : HttpProg Unit :=
  sendProblem (problemDetails status title detail path extra)

/-- Set a header. -/
def setHeader (name value : Str) : HttpProg Unit := ask (.setHeader name value)

/-! ### The error handler -/

/-- A typed application error. -/
structure ApiError where
  status : ℕ
  title : Str
  detail : Str
  code : Option Str
  extra : ProblemExtra

/-- What `errorHandler` looks at in an exception. -/
structure ErrorView where
  apiError : Option ApiError
  circuitOpen : Bool
  isError : Bool
  name : Str
  message : Str
  code : Option Str
  status : Option ℕ
  type : Option Str

/-- True for errors that mean that Redis is unreachable or fails fast. -/
def isDependencyError (v : ErrorView) : Bool :=
  v.circuitOpen || (v.isError && (v.name = str "MaxRetriesPerRequestError" ||
    v.message = str "Connection is closed." || v.code = some (str "ECONNREFUSED") ||
    v.code = some (str "ECONNRESET")))

/-- The answer to a failing dependency. -/
def unavailable (path : Str) : ProblemDetails :=
  problemDetails 503 (str "Service Unavailable")
    (str "A backing service is temporarily unavailable. Retry shortly.") path
    { code := some (str "service-unavailable") }

/-- The status and the type of an error of the parser of bodies. -/
def bodyError (v : ErrorView) : Option (ℕ × Str) :=
  match v.status, v.type with
  | some status, some type =>
    if 400 ≤ status ∧ status < 500 ∧ str "entity." <+: type then some (status, type) else none
  | _, _ => none

/-- The answer to an exception. -/
def answerError (path : Str) (v : ErrorView) : HttpProg Unit :=
  match v.apiError with
  | some e =>
    problem e.status e.title e.detail path
      { e.extra with code := e.extra.code.or (nonempty e.code) }
  | none =>
    if isDependencyError v then do
      setHeader (str "Retry-After") (str "5")
      sendProblem (unavailable path)
    else
      match bodyError v with
      | some (status, type) =>
        problem status (str "Bad Request")
          (if type = str "entity.too.large" then str "The request body is too large."
            else str "The request body could not be parsed.")
          path { code := some (str "validation-error") }
      | none =>
        problem 500 (str "Internal Server Error")
          (str "An unexpected error occurred. The incident has been logged.") path {}

/-- `errorHandler`. -/
def errorHandler (path : Str) (v : ErrorView) : HttpProg Unit := do
  let sent : Bool ← ask .headersSent
  if sent then pure () else answerError path v

/-! ### The middlewares -/

/-- What the middlewares attach to a request. -/
structure Attached where
  principal : Option Principal := none
  validated : Option ApiRequest := none

/-- A middleware returns what it passes to `next`, or nothing when it has answered. -/
abbrev Middleware := HttpRequest → Attached → HttpProg (Option Attached)

/-- Attach the principal or refuse. -/
def authMiddleware : Middleware := fun req a =>
  match req.authenticated with
  | .ok principal => return some { a with principal := some principal }
  | .error refusal => do
    problem refusal.status refusal.title refusal.detail req.path {}
    return none

/-- Read the principal; without one it raises an `AuthError`. -/
def getPrincipal (a : Attached) : Except Exc Principal :=
  match a.principal with
  | some principal => .ok principal
  | none => .error .other

/-- Enforce the combined rate limit. Whatever is raised meanwhile, the request goes on. -/
def rateLimitMiddleware : Middleware := fun req a => do
  let principal := (getPrincipal a).toOption.getD ⟨clientIp req, .anonymous, .anonymous⟩
  tryCatch (do
    let outcome : RateLimitVerdict ← ask (.evaluateRateLimit principal (clientIp req))
    setHeader (str "RateLimit-Limit") (decimal outcome.userLimit)
    setHeader (str "RateLimit-Remaining") (decimal outcome.remaining)
    if outcome.blocked then
      let retryAfterSec := (outcome.retryAfterMs + 999) / 1000
      setHeader (str "Retry-After") (decimal retryAfterSec)
      problem 429 (str "Too Many Requests")
        (str "Rate limit exceeded. Retry after " ++ decimal retryAfterSec ++ str "s.") req.path
        { code := some (str "rate-limited"), retryAfterSeconds := some retryAfterSec }
      return none
    else return some a) fun _ => return some a

/-- Attach the validated body or refuse. -/
def validateExecuteBody : Middleware := fun req a =>
  match req.validated with
  | .ok request => return some { a with validated := some request }
  | .error errors => do
    problem 400 (str "Validation Error") (str "The request body failed validation.") req.path
      { code := some (str "validation-error"), errors := some errors }
    return none

/-- Read the validated body; without one the handlers raise a `TypeError`. -/
def getValidated (a : Attached) : Except Exc ApiRequest :=
  match a.validated with
  | some request => .ok request
  | none => .error .typeError

/-- The middlewares one after another, until one of them answers. -/
def chain (req : HttpRequest) : List Middleware → Attached → HttpProg (Option Attached)
  | [], a => return some a
  | m :: ms, a => do
    match ← m req a with
    | some a => chain req ms a
    | none => return none

/-! ### The routes -/

/-- What the handlers of submissions draw: the job id, the trace, the time, the cached flag of the
consumer group, and the number of polls before the deadline. -/
structure Draws where
  jobId : Str
  traceparent : Str
  nowIso : Str
  groupEnsured : Bool
  polls : ℕ

/-- The submission of a request. -/
def Draws.submission (d : Draws) (principal : Principal) (request : ApiRequest) : Submission where
  principal := principal
  request := request
  jobId := d.jobId
  traceparent := d.traceparent
  nowIso := d.nowIso
  groupEnsured := d.groupEnsured

/-- The routes that authenticate. -/
inductive HttpRoute
  | execute (d : Draws)
  | executeAsync (d : Draws)
  | getJob (jobId : Str)
  | deleteJob (jobId : Str)

namespace HttpRoute

/-- The routes of submissions are rate-limited. -/
def isSubmission : HttpRoute → Bool
  | .execute _ | .executeAsync _ => true
  | .getJob _ | .deleteJob _ => false

/-- The middlewares of a route. -/
def middlewares (route : HttpRoute) : List Middleware :=
  if route.isSubmission then [authMiddleware, rateLimitMiddleware, validateExecuteBody]
  else [authMiddleware]

end HttpRoute

/-- A program of the routes as one of the server. -/
def onRoute {α : Type} (p : Prog α) : HttpProg α := p.embed .route fun _ r => r

variable (config : AppConfig)

/-- The handler of a submission. -/
def submissionHandler (p : Submission → Prog Unit) (d : Draws) (a : Attached) : HttpProg Unit := do
  let principal ← Program.ofExcept (getPrincipal a)
  let request ← Program.ofExcept (getValidated a)
  onRoute (p (d.submission principal request))

/-- The handler of a job route. -/
def jobHandler (p : Principal → Prog Unit) (a : Attached) : HttpProg Unit := do
  let principal ← Program.ofExcept (getPrincipal a)
  onRoute (p principal)

/-- The handler of a route. -/
def HttpRoute.handler : HttpRoute → Attached → HttpProg Unit
  | .execute d => submissionHandler (fun sub => postExecute config sub d.polls) d
  | .executeAsync d => submissionHandler (postExecuteAsync config) d
  | .getJob jobId => jobHandler fun principal => Api.getJob principal jobId
  | .deleteJob jobId => jobHandler fun principal => Api.deleteJob principal jobId

/-- The server on a request. -/
def serve (view : Exc → ErrorView) (req : HttpRequest) (route : HttpRoute) : HttpProg Unit :=
  tryCatch (do
    Program.ofExcept req.arrival
    match ← chain req route.middlewares {} with
    | some a => route.handler config a
    | none => pure ()) fun e => errorHandler req.path (view e)

/-! ### The protocol of a request -/

/-- How far a request is: it has arrived, the rate limiter has admitted it, it has been answered, or
the server has failed to write to the response. -/
inductive Progress
  | arrived
  | admitted
  | answered
  | broken
  deriving DecidableEq

/-- What a submission may ask of Redis: everything concerns the job it drew and the principal `p`,
and what it enqueues is the validated body `q`. -/
def Draws.Permits (d : Draws) (p : Principal) (q : ApiRequest) : Cmd → Prop
  | .acquire userId jobId limit ttlMs =>
    userId = p.userId ∧ jobId = d.jobId ∧ limit = concurrencyLimitForTier config p.tier ∧
      ttlMs = slotTtlMs config
  | .xgroupCreate | .respond _ => True
  | .enqueue payload record =>
    payload = (d.submission p q).payload ∧ record = (d.submission p q).record
  | .getRecord jobId => jobId = d.jobId
  | .zrem userId jobId => userId = p.userId ∧ jobId = d.jobId
  | _ => False

/-- What a job route may ask of Redis: it reads the record of the job, and cancels it only for the
principal `p` that owns it. -/
def JobPermits (jobId : Str) (cancels : Bool) (p : Principal) : Cmd → Prop
  | .getRecord id => id = jobId
  | .respond _ => True
  | .cancelMulti id record => cancels = true ∧ id = jobId ∧ record.userId = p.userId
  | .zrem userId id => cancels = true ∧ userId = p.userId ∧ id = jobId
  | _ => False

/-- What the handler of a route may do for a request. -/
def HttpRoute.Permits (req : HttpRequest) (route : HttpRoute) (c : Cmd) : Prop :=
  ∃ p, req.authenticated = .ok p ∧
    match route with
    | .execute d | .executeAsync d => ∃ q, req.validated = .ok q ∧ d.Permits config p q c
    | .getJob jobId => JobPermits jobId false p c
    | .deleteJob jobId => JobPermits jobId true p c

namespace Progress

/-- The answer is being written. -/
def written : Except Exc Unit → Progress
  | .ok _ => .answered
  | .error _ => .broken

/-- The rate limiter has judged; when it fails the request is admitted. -/
def judged : Except Exc RateLimitVerdict → Progress
  | .ok verdict => if verdict.blocked then .arrived else .admitted
  | .error _ => .admitted

/-- Something was done that leaves the request where it is, unless it failed. -/
def kept (s : Progress) : Except Exc Unit → Progress
  | .ok _ => s
  | .error _ => .broken

/-- The server looked whether the response was sent. -/
def looked (s : Progress) : Except Exc Bool → Progress
  | .ok sent => if sent = decide (s = .answered) then s else .broken
  | .error _ => .broken

open Classical in
/-- The point after an event; `none` when the event is out of place. -/
noncomputable def next (req : HttpRequest) (route : HttpRoute) (s : Progress) (e : HttpEvent) :
    Option Progress :=
  match s, e with
  | .broken, _ => some .broken
  | s, ⟨.headersSent, r⟩ => some (s.looked r)
  | .answered, _ => none
  | s, ⟨.setHeader _ _, r⟩ => some (s.kept r)
  | _, ⟨.problem _, r⟩ => some (written r)
  | .arrived, ⟨.evaluateRateLimit p ip, r⟩ =>
    if req.authenticated = .ok p ∧ ip = clientIp req then some (judged r) else none
  | .admitted, ⟨.route (.respond response), r⟩ =>
    if route.Permits config req (.respond response) then some (written r) else none
  | .admitted, ⟨.route c, _⟩ => if route.Permits config req c then some .admitted else none
  | _, _ => none

/-- Where a request of the route starts: only submissions are rate-limited. -/
def start (route : HttpRoute) : Progress := if route.isSubmission then .arrived else .admitted

end Progress

/-! ### Parts of the server -/

section

variable {config} {req : HttpRequest} {route : HttpRoute} {α β : Type} {s : Progress}

/-- The condition `Q`, unless the server has failed to write. -/
def OrBroken (Q : Except Exc α → Progress → Prop) (out : Except Exc α) (s : Progress) : Prop :=
  s = .broken ∨ Q out s

/-- The request has been answered and nothing was raised. -/
def Answered (out : Except Exc Unit) (s : Progress) : Prop := s = .answered ∧ out = .ok ()

/-- The request has not been answered. -/
def Progress.isOpen (s : Progress) : Prop := s = .arrived ∨ s = .admitted

theorem follows_broken (p : HttpProg α) {Q : Except Exc α → Progress → Prop} :
    p.Follows (Progress.next config req route) .broken (OrBroken Q) := by
  induction p with
  | pure a => exact .inl rfl
  | throw e => exact .inl rfl
  | call c k ih => exact fun r => ⟨.broken, rfl, ih r⟩

/-- A part and what comes after it. -/
theorem follows_then {p : HttpProg α} {f : α → HttpProg β} {P : Except Exc α → Progress → Prop}
    {Q : Except Exc β → Progress → Prop}
    (hp : p.Follows (Progress.next config req route) s (OrBroken P))
    (hok : ∀ a s', P (.ok a) s' → (f a).Follows (Progress.next config req route) s' (OrBroken Q))
    (herror : ∀ e s', P (.error e) s' → Q (.error e) s') :
    (p >>= f).Follows (Progress.next config req route) s (OrBroken Q) := by
  refine Program.follows_bind.mpr (hp.mono fun out s' hout => ?_)
  rcases hout with rfl | hout
  · cases out with
    | ok a => exact follows_broken _
    | error e => exact .inl rfl
  · cases out with
    | ok a => exact hok a s' hout
    | error e => exact .inr (herror e s' hout)

theorem setHeader_follows (hs : s.isOpen) (name value : Str) :
    (setHeader name value).Follows (Progress.next config req route) s
      (OrBroken fun out s' => s' = s ∧ out = .ok ()) := by
  refine Program.follows_perform.mpr fun r => ⟨s.kept r, ?_, ?_⟩
  · rcases hs with rfl | rfl <;> rfl
  · cases r with
    | ok u => exact .inr ⟨rfl, rfl⟩
    | error e => exact .inl rfl

theorem writes_follows (hs : s.isOpen) (details : ProblemDetails) :
    (sendProblem details).Follows (Progress.next config req route) s (OrBroken Answered) := by
  refine Program.follows_perform.mpr fun r => ⟨Progress.written r, ?_, ?_⟩
  · rcases hs with rfl | rfl <;> rfl
  · cases r with
    | ok u => exact .inr ⟨rfl, rfl⟩
    | error e => exact .inl rfl

/-- A refusal by a middleware. -/
theorem refuses_follows (hs : s.isOpen) (details : ProblemDetails)
    {Q : Except Exc (Option Attached) → Progress → Prop} (hQ : Q (.ok none) .answered) :
    (sendProblem details >>= fun _ => pure none : HttpProg (Option Attached)).Follows
      (Progress.next config req route) s (OrBroken Q) := by
  refine follows_then (writes_follows hs details) (fun _ s' h => ?_) fun e s' h => nomatch h.2
  rw [h.1]
  exact .inr hQ

theorem answerError_follows (hs : s.isOpen) (path : Str) (v : ErrorView) :
    (answerError path v).Follows (Progress.next config req route) s (OrBroken Answered) := by
  unfold answerError
  split
  · exact writes_follows hs _
  by_cases hdependency : isDependencyError v = true
  · rw [if_pos hdependency]
    refine follows_then (setHeader_follows hs _ _) (fun _ s' h => ?_) fun e s' h => nomatch h.2
    rw [h.1]
    exact writes_follows hs _
  · rw [if_neg hdependency]
    split <;> exact writes_follows hs _

/-- Whatever was raised before the answer, the error handler answers. -/
theorem errorHandler_follows (hs : s.isOpen) (path : Str) (v : ErrorView) :
    (errorHandler path v).Follows (Progress.next config req route) s (OrBroken Answered) := by
  have hanswer := @answerError_follows config req route s hs path v
  refine Program.follows_bind.mpr (Program.follows_perform.mpr fun r => ⟨s.looked r, ?_, ?_⟩)
  · rcases hs with rfl | rfl <;> rfl
  match r with
  | .error e => exact .inl rfl
  | .ok true => rcases hs with rfl | rfl <;> exact .inl rfl
  | .ok false => rcases hs with rfl | rfl <;> exact hanswer

/-! ### The middlewares in the protocol -/

/-- A middleware goes on with attachments and at a point that satisfy `K`, or answers. -/
def Passes (K : Attached → Progress → Prop) (out : Except Exc (Option Attached)) (s : Progress) :
    Prop :=
  match out with
  | .ok (some a) => K a s
  | .ok none => s = .answered
  | .error _ => False

theorem authMiddleware_follows (hs : s.isOpen) (a : Attached) :
    (authMiddleware req a).Follows (Progress.next config req route) s
      (OrBroken (Passes fun a' s' => s' = s ∧ ∃ p, req.authenticated = .ok p ∧
        a' = { a with principal := some p })) := by
  unfold authMiddleware
  split
  · next p hp => exact .inr ⟨rfl, p, hp, rfl⟩
  · exact refuses_follows hs _ rfl

theorem rateLimitMiddleware_follows {p : Principal} (hp : req.authenticated = .ok p)
    {a : Attached} (ha : a.principal = some p) :
    (rateLimitMiddleware req a).Follows (Progress.next config req route) .arrived
      (OrBroken (Passes fun a' s' => s' = .admitted ∧ a' = a)) := by
  have hprincipal : (getPrincipal a).toOption.getD ⟨clientIp req, .anonymous, .anonymous⟩ = p := by
    rw [getPrincipal, ha]
    rfl
  rw [rateLimitMiddleware, hprincipal]
  refine Program.follows_tryCatch.mpr (Program.Follows.mono (Q := OrBroken fun out s' =>
    Passes (fun a' s' => s' = .admitted ∧ a' = a) out s' ∨
      (∃ e, out = .error e) ∧ s' = .admitted) ?_ ?_)
  · -- the request is admitted when the limiter fails, and stays where it is when it is blocked
    refine Program.follows_bind.mpr (Program.follows_perform.mpr fun r =>
      ⟨Progress.judged r, if_pos ⟨hp, rfl⟩, ?_⟩)
    cases r with
    | error e => exact .inr (.inr ⟨⟨e, rfl⟩, rfl⟩)
    | ok outcome =>
      have hopen : (Progress.judged (.ok outcome)).isOpen := by
        by_cases hblocked : outcome.blocked = true
        · exact .inl (if_pos hblocked)
        · exact .inr (if_neg hblocked)
      refine follows_then (setHeader_follows hopen _ _) (fun _ s₁ h₁ => ?_)
        fun e s' h => nomatch h.2
      rw [h₁.1]
      refine follows_then (setHeader_follows hopen _ _) (fun _ s₂ h₂ => ?_)
        fun e s' h => nomatch h.2
      rw [h₂.1]
      split
      · refine follows_then (setHeader_follows hopen _ _) (fun _ s₃ h₃ => ?_)
          fun e s' h => nomatch h.2
        rw [h₃.1]
        exact refuses_follows hopen _ (.inl rfl)
      · next hblocked => exact .inr (.inl ⟨if_neg hblocked, rfl⟩)
  · rintro out s' (rfl | hout | ⟨⟨e, rfl⟩, rfl⟩)
    · cases out with
      | ok a => exact .inl rfl
      | error e => exact .inl rfl
    · cases out with
      | ok a => exact .inr hout
      | error e => exact hout.elim
    · exact .inr ⟨rfl, rfl⟩

theorem validateExecuteBody_follows (a : Attached) :
    (validateExecuteBody req a).Follows (Progress.next config req route) .admitted
      (OrBroken (Passes fun a' s' => s' = .admitted ∧ ∃ q, req.validated = .ok q ∧
        a' = { a with validated := some q })) := by
  unfold validateExecuteBody
  split
  · next q hq => exact .inr ⟨rfl, q, hq, rfl⟩
  · exact refuses_follows (.inr rfl) _ rfl

/-- The first middleware of a chain, and the others. -/
theorem chain_cons_follows {m : Middleware} {ms : List Middleware} {a : Attached}
    {K K' : Attached → Progress → Prop}
    (hm : (m req a).Follows (Progress.next config req route) s (OrBroken (Passes K)))
    (hms : ∀ a' s', K a' s' →
      (chain req ms a').Follows (Progress.next config req route) s' (OrBroken (Passes K'))) :
    (chain req (m :: ms) a).Follows (Progress.next config req route) s
      (OrBroken (Passes K')) := by
  refine follows_then hm (fun out s' h => ?_) fun e s' h => h.elim
  cases out with
  | none => exact .inr h
  | some a' => exact hms a' s' h

theorem chain_auth_follows (hs : s.isOpen) :
    (chain req [authMiddleware] {}).Follows (Progress.next config req route) s
      (OrBroken (Passes fun a s' => s' = s ∧ ∃ p, req.authenticated = .ok p ∧
        a = { principal := some p })) :=
  chain_cons_follows (authMiddleware_follows hs {}) fun _ _ h => .inr h

theorem chain_submission_follows :
    (chain req [authMiddleware, rateLimitMiddleware, validateExecuteBody] {}).Follows
      (Progress.next config req route) .arrived
      (OrBroken (Passes fun a s' => s' = .admitted ∧ ∃ p q, req.authenticated = .ok p ∧
        req.validated = .ok q ∧ a = { principal := some p, validated := some q })) := by
  refine chain_cons_follows (authMiddleware_follows (.inl rfl) {}) ?_
  rintro a s' ⟨rfl, p, hp, rfl⟩
  refine chain_cons_follows (rateLimitMiddleware_follows hp rfl) ?_
  rintro a s' ⟨rfl, rfl⟩
  refine chain_cons_follows (validateExecuteBody_follows _) ?_
  rintro a s' ⟨rfl, q, hq, rfl⟩
  exact .inr ⟨rfl, p, q, hp, hq, rfl⟩

/-! ### The handlers in the protocol -/

/-- The handler answers, or raises before it does. -/
def Handles (out : Except Exc Unit) (s : Progress) : Prop :=
  match out with
  | .ok _ => s = .answered
  | .error _ => s.isOpen

variable (config req route) in
/-- The protocol seen by the programs of the routes. -/
noncomputable def routeNext (s : Progress) (e : Event Cmd Reply Exc) : Option Progress :=
  Progress.next config req route s ⟨.route e.cmd, e.answer⟩

theorem onRoute_follows {p : Prog α} {Q : Except Exc α → Progress → Prop}
    (hp : p.Follows (routeNext config req route) s Q) :
    (onRoute p).Follows (Progress.next config req route) s Q := by
  refine hp.embed fun s c r => ?_
  cases r <;> rfl

/-- The command answers the request. -/
def isAnswer : Cmd → Bool
  | .respond _ => true
  | _ => false

variable (config req route) in
/-- A command that is permitted and no answer. -/
def Asks (c : Cmd) : Prop := route.Permits config req c ∧ isAnswer c = false

/-- A part that only asks Redis for what is permitted. -/
theorem asks_follows {p : Prog α} (hp : p.Issues (Asks config req route)) :
    p.Follows (routeNext config req route) .admitted fun _ s' => s' = .admitted := by
  refine hp.follows fun c hc r => ?_
  cases c with
  | respond response => cases hc.2
  | _ => exact if_pos hc.1

/-- The answer of a handler. -/
theorem responds_follows {response : Response}
    (h : route.Permits config req (.respond response)) :
    (issue (.respond response) : Prog Unit).Follows (routeNext config req route) .admitted
      (OrBroken Handles) := by
  refine Program.follows_perform.mpr fun r => ⟨Progress.written r, if_pos h, ?_⟩
  cases r with
  | ok u => exact .inr rfl
  | error e => exact .inl rfl

/-- A part that asks Redis, and what comes after it. -/
theorem follows_asks {p : Prog α} {f : α → Prog Unit}
    (hp : p.Issues (Asks config req route))
    (hf : ∀ a, (f a).Follows (routeNext config req route) .admitted (OrBroken Handles)) :
    (p >>= f).Follows (routeNext config req route) .admitted (OrBroken Handles) := by
  refine Program.follows_bind.mpr ((asks_follows hp).mono fun out s' hs => ?_)
  subst hs
  cases out with
  | ok a => exact hf a
  | error e => exact .inr (.inr rfl)

/-! ### Submissions -/

section

variable {d : Draws} {p : Principal} {q : ApiRequest}
  (h : ∀ c, d.Permits config p q c → route.Permits config req c)
include h

theorem acquireSlot_asks : (acquireSlot config p d.jobId).Issues (Asks config req route) := by
  have hc : Asks config req route (.acquire p.userId d.jobId
      (concurrencyLimitForTier config p.tier) (slotTtlMs config)) :=
    ⟨h _ ⟨rfl, rfl, rfl, rfl⟩, rfl⟩
  exact Program.issues_tryCatch (Program.issues_perform hc) fun _ => Program.issues_pure _

theorem releaseSlot_asks : (releaseSlot p.userId d.jobId).Issues (Asks config req route) := by
  have hc : Asks config req route (.zrem p.userId d.jobId) := ⟨h _ ⟨rfl, rfl⟩, rfl⟩
  exact Program.issues_tryCatch (Program.issues_perform hc) fun _ => Program.issues_pure _

theorem enqueueJob_asks : (enqueueJob (d.submission p q)).Issues (Asks config req route) := by
  have hgroup : Asks config req route .xgroupCreate := ⟨h _ trivial, rfl⟩
  have hc : Asks config req route
      (.enqueue (d.submission p q).payload (d.submission p q).record) := ⟨h _ ⟨rfl, rfl⟩, rfl⟩
  refine Program.issues_bind (Program.issues_ite (Program.issues_pure _) ?_) fun _ =>
    Program.issues_perform hc
  exact Program.issues_bind (Program.issues_perform hgroup) fun _ => Program.issues_pure _

theorem waitForTerminal_asks (polls : ℕ) :
    (waitForTerminal d.jobId polls).Issues (Asks config req route) := by
  have hc : Asks config req route (.getRecord d.jobId) := ⟨h _ rfl, rfl⟩
  have hget : (getJobRecord d.jobId).Issues (Asks config req route) := Program.issues_perform hc
  induction polls with
  | zero => exact hget
  | succ n ih =>
    refine Program.issues_bind hget fun last => ?_
    cases last with
    | none => exact ih
    | some last => exact Program.issues_ite (Program.issues_pure _) ih

/-- A submission answers when it is refused, and goes on when the job was enqueued. -/
theorem submit_follows {handler : Prog Unit}
    (hhandler : handler.Follows (routeNext config req route) .admitted (OrBroken Handles)) :
    (do if ← submit config (d.submission p q) then handler else pure () : Prog Unit).Follows
      (routeNext config req route) .admitted (OrBroken Handles) := by
  have hacquire := asks_follows (acquireSlot_asks h)
  have henqueue := asks_follows (enqueueJob_asks h)
  have hrefuse (response : Response) : route.Permits config req (.respond response) := h _ trivial
  refine Program.follows_bind.mpr (Program.follows_bind.mpr (hacquire.mono fun out s' hs => ?_))
  subst hs
  match out with
  | .error e => exact .inr (.inr rfl)
  | .ok true =>
    refine Program.follows_bind.mpr (henqueue.mono fun out s' hs => ?_)
    subst hs
    cases out with
    | ok u => exact hhandler
    | error e => exact .inr (.inr rfl)
  | .ok false =>
    refine Program.follows_bind.mpr (Program.follows_perform.mpr fun r =>
      ⟨Progress.written r, if_pos (hrefuse _), ?_⟩)
    cases r with
    | ok u => exact .inr rfl
    | error e => exact .inl rfl

theorem postExecute_follows (polls : ℕ) :
    (postExecute config (d.submission p q) polls).Follows (routeNext config req route) .admitted
      (OrBroken Handles) := by
  have hanswer (response : Response) : route.Permits config req (.respond response) := h _ trivial
  refine submit_follows h (follows_asks (waitForTerminal_asks h polls) fun record => ?_)
  exact follows_asks (releaseSlot_asks h) fun _ => responds_follows (hanswer _)

theorem postExecuteAsync_follows :
    (postExecuteAsync config (d.submission p q)).Follows (routeNext config req route) .admitted
      (OrBroken Handles) := by
  have hanswer (response : Response) : route.Permits config req (.respond response) := h _ trivial
  exact submit_follows h (responds_follows (hanswer _))

end

/-! ### Job routes -/

section

variable {jobId : Str} {cancels : Bool} {p : Principal}
  (h : ∀ c, JobPermits jobId cancels p c → route.Permits config req c)
include h

theorem getJobRecord_asks : (getJobRecord jobId).Issues (Asks config req route) := by
  have hc : Asks config req route (.getRecord jobId) := ⟨h _ rfl, rfl⟩
  exact Program.issues_perform hc

theorem answers_follows (response : Response) :
    (issue (.respond response) : Prog Unit).Follows (routeNext config req route) .admitted
      (OrBroken Handles) :=
  responds_follows (h (.respond response) trivial)

theorem getJob_follows :
    (getJob p jobId).Follows (routeNext config req route) .admitted (OrBroken Handles) := by
  have hanswer := answers_follows h
  refine Program.follows_ite (fun _ => follows_asks (getJobRecord_asks h) fun record => ?_)
    fun _ => hanswer _
  cases record with
  | none => exact hanswer _
  | some record => exact Program.follows_ite (fun _ => hanswer _) fun _ => hanswer _

theorem deleteJob_follows (hcancels : cancels = true) :
    (deleteJob p jobId).Follows (routeNext config req route) .admitted (OrBroken Handles) := by
  have hanswer := answers_follows h
  refine Program.follows_ite (fun _ => follows_asks (getJobRecord_asks h) fun record => ?_)
    fun _ => hanswer _
  cases record with
  | none => exact hanswer _
  | some record =>
    refine Program.follows_ite (fun howner => ?_) fun _ => hanswer _
    refine Program.follows_ite (fun _ => hanswer _) fun _ => ?_
    have hcancel : Asks config req route (.cancelMulti jobId (killedRecord record)) :=
      ⟨h _ ⟨hcancels, rfl, howner⟩, rfl⟩
    have hrelease : Asks config req route (.zrem record.userId jobId) :=
      ⟨h _ ⟨hcancels, howner, rfl⟩, rfl⟩
    refine follows_asks (Program.issues_perform hcancel) fun _ => ?_
    refine follows_asks (Program.issues_tryCatch (Program.issues_perform hrelease) fun _ =>
      Program.issues_pure _) fun _ => ?_
    exact hanswer _

end

/-! ### The server in the protocol -/

/-- A handler behind a chain of middlewares. -/
theorem follows_chain {ms : List Middleware} {handler : Attached → HttpProg Unit}
    {K : Attached → Progress → Prop}
    (hchain : (chain req ms {}).Follows (Progress.next config req route) s (OrBroken (Passes K)))
    (hhandler : ∀ a s', K a s' →
      (handler a).Follows (Progress.next config req route) s' (OrBroken Handles)) :
    (do
      match ← chain req ms {} with
      | some a => handler a
      | none => pure () : HttpProg Unit).Follows (Progress.next config req route) s
        (OrBroken Handles) := by
  refine follows_then hchain (fun out s' h => ?_) fun e s' h => h.elim
  cases out with
  | none => exact .inr h
  | some a => exact hhandler a s' h

theorem submissionRoute_follows {d : Draws} {f : Submission → Prog Unit}
    (hf : ∀ p q, req.authenticated = .ok p → req.validated = .ok q →
      (f (d.submission p q)).Follows (routeNext config req route) .admitted (OrBroken Handles)) :
    (do
      match ← chain req [authMiddleware, rateLimitMiddleware, validateExecuteBody] {} with
      | some a => submissionHandler f d a
      | none => pure () : HttpProg Unit).Follows (Progress.next config req route) .arrived
        (OrBroken Handles) := by
  refine follows_chain chain_submission_follows ?_
  rintro a s' ⟨rfl, p, q, hp, hq, rfl⟩
  exact onRoute_follows (hf p q hp hq)

theorem jobRoute_follows {f : Principal → Prog Unit}
    (hf : ∀ p, req.authenticated = .ok p →
      (f p).Follows (routeNext config req route) .admitted (OrBroken Handles)) :
    (do
      match ← chain req [authMiddleware] {} with
      | some a => jobHandler f a
      | none => pure () : HttpProg Unit).Follows (Progress.next config req route) .admitted
        (OrBroken Handles) := by
  refine follows_chain (chain_auth_follows (.inr rfl)) ?_
  rintro a s' ⟨rfl, p, hp, rfl⟩
  exact onRoute_follows (hf p hp)

/-- What a route does with a request that has passed `cors` and `express.json`. -/
theorem dispatch_follows :
    (do
      match ← chain req route.middlewares {} with
      | some a => route.handler config a
      | none => pure () : HttpProg Unit).Follows (Progress.next config req route)
        (Progress.start route) (OrBroken Handles) := by
  cases route with
  | execute d =>
    refine @submissionRoute_follows config req (.execute d) d
      (fun sub => postExecute config sub d.polls) fun p q hp hq => ?_
    have h : ∀ c, d.Permits config p q c → HttpRoute.Permits config req (.execute d) c :=
      fun c hc => ⟨p, hp, q, hq, hc⟩
    exact postExecute_follows h d.polls
  | executeAsync d =>
    refine @submissionRoute_follows config req (.executeAsync d) d (postExecuteAsync config)
      fun p q hp hq => ?_
    have h : ∀ c, d.Permits config p q c → HttpRoute.Permits config req (.executeAsync d) c :=
      fun c hc => ⟨p, hp, q, hq, hc⟩
    exact postExecuteAsync_follows h
  | getJob jobId =>
    refine @jobRoute_follows config req (.getJob jobId) (fun principal => getJob principal jobId)
      fun p hp => ?_
    have h : ∀ c, JobPermits jobId false p c → HttpRoute.Permits config req (.getJob jobId) c :=
      fun c hc => ⟨p, hp, hc⟩
    exact getJob_follows h
  | deleteJob jobId =>
    refine @jobRoute_follows config req (.deleteJob jobId)
      (fun principal => deleteJob principal jobId) fun p hp => ?_
    have h : ∀ c, JobPermits jobId true p c → HttpRoute.Permits config req (.deleteJob jobId) c :=
      fun c hc => ⟨p, hp, hc⟩
    exact deleteJob_follows h rfl

theorem isOpen_start : (Progress.start route).isOpen := by
  cases route <;> first | exact .inl rfl | exact .inr rfl

/-- The server follows the protocol of a request to its answer. -/
theorem serve_follows (view : Exc → ErrorView) :
    (serve config view req route).Follows (Progress.next config req route)
      (Progress.start route) (OrBroken Answered) := by
  refine Program.follows_tryCatch.mpr (Program.Follows.mono (Q := OrBroken Handles) ?_ ?_)
  · refine Program.follows_bind.mpr ((Program.follows_ofExcept _ _).mpr ?_)
    cases req.arrival with
    | error e => exact .inr isOpen_start
    | ok u => exact dispatch_follows
  · rintro out s' (rfl | hout)
    · cases out with
      | ok u => exact .inl rfl
      | error e => exact follows_broken _
    · cases out with
      | ok u => exact .inr ⟨hout, rfl⟩
      | error e => exact errorHandler_follows hout _ _

end

/-! ### Answers -/

/-- The event sends an answer. -/
def sends : HttpEvent → Bool
  | ⟨.problem _, .ok _⟩ | ⟨.route (.respond _), .ok _⟩ => true
  | _ => false

/-- The number of answers sent. -/
def answers (t : List HttpEvent) : ℕ := t.countP sends

/-- What the server relies on when it writes to a response: setting a header and sending do not
raise, and the response says truly whether it was sent. -/
def WritesOk (older : List HttpEvent) : HttpEvent → Prop
  | ⟨.setHeader _ _, r⟩ => ∃ u, r = .ok u
  | ⟨.problem _, r⟩ => ∃ u, r = .ok u
  | ⟨.route (.respond _), r⟩ => ∃ u, r = .ok u
  | ⟨.headersSent, r⟩ => r = .ok (decide (answers older = 1))
  | _ => True

/-- All writes to the response succeed. -/
def Reliable (t : List HttpEvent) : Prop := ∀ e older, e :: older <:+ t → WritesOk older e

/-- The rate limiter was asked for the principal of the request at its address, and admitted it or
failed. -/
def Passed (req : HttpRequest) (t : List HttpEvent) : Prop :=
  ∃ p r, req.authenticated = .ok p ∧ ⟨.evaluateRateLimit p (clientIp req), r⟩ ∈ t ∧
    ∀ verdict : RateLimitVerdict, r = .ok verdict → verdict.blocked = false

/-- What the trace of a request says about how far it is. -/
def Progress.Agrees (req : HttpRequest) (route : HttpRoute) (s : Progress) (t : List HttpEvent) :
    Prop :=
  match s with
  | .arrived => answers t = 0
  | .admitted => answers t = 0 ∧ (route.isSubmission = true → Passed req t)
  | .answered => answers t = 1
  | .broken => False

section

variable {config} {req : HttpRequest} {route : HttpRoute} {s s' : Progress} {t : List HttpEvent}

theorem answers_cons (e : HttpEvent) : answers (e :: t) = answers t + (sends e).toNat := by
  rw [answers, List.countP_cons, answers]
  cases sends e <;> rfl

/-- Looking whether the response was sent tells how far the request is. -/
theorem looked_of_agrees (h : s.Agrees req route t) :
    s.looked (.ok (decide (answers t = 1))) = s := by
  cases s with
  | arrived =>
    have hnone : answers t = 0 := h
    rw [hnone]
    rfl
  | admitted =>
    rw [h.1]
    rfl
  | answered =>
    have hone : answers t = 1 := h
    rw [hone]
    rfl
  | broken => exact h.elim

/-- An event that sends nothing leaves the number of answers. -/
theorem Progress.Agrees.cons (h : s.Agrees req route t) {e : HttpEvent} (he : sends e = false) :
    s.Agrees req route (e :: t) := by
  have hsame : answers (e :: t) = answers t := by rw [answers_cons, he]; rfl
  cases s with
  | arrived => exact hsame.trans h
  | admitted =>
    refine ⟨hsame.trans h.1, fun hroute => ?_⟩
    obtain ⟨p, r, hp, hmem, hr⟩ := h.2 hroute
    exact ⟨p, r, hp, List.mem_cons_of_mem _ hmem, hr⟩
  | answered => exact hsame.trans h
  | broken => exact h

/-- The answer is the first one. -/
theorem Progress.Agrees.answer (h : s.Agrees req route t) (hs : s.isOpen) {e : HttpEvent}
    (he : sends e = true) : Progress.Agrees req route .answered (e :: t) := by
  have hnone : answers t = 0 := by
    rcases hs with rfl | rfl
    · exact h
    · exact h.1
  change answers (e :: t) = 1
  rw [answers_cons, he, hnone]
  rfl

theorem Progress.Agrees.judged (h : Progress.Agrees req route .arrived t) {p : Principal}
    (hp : req.authenticated = .ok p) (r : Except Exc RateLimitVerdict) :
    (Progress.judged r).Agrees req route (⟨.evaluateRateLimit p (clientIp req), r⟩ :: t) := by
  have hsame : answers (⟨.evaluateRateLimit p (clientIp req), r⟩ :: t) = 0 :=
    (answers_cons _).trans h
  have hmem : (⟨.evaluateRateLimit p (clientIp req), r⟩ : HttpEvent) ∈
      (⟨.evaluateRateLimit p (clientIp req), r⟩ :: t : List HttpEvent) := List.mem_cons_self
  match r with
  | .error e => exact ⟨hsame, fun _ => ⟨p, _, hp, hmem, nofun⟩⟩
  | .ok verdict =>
    by_cases hblocked : verdict.blocked = true
    · have hjudged : Progress.judged (.ok verdict) = .arrived := if_pos hblocked
      rw [hjudged]
      exact hsame
    · have hjudged : Progress.judged (.ok verdict) = .admitted := if_neg hblocked
      rw [hjudged]
      refine ⟨hsame, fun _ => ⟨p, _, hp, hmem, fun verdict' hr => ?_⟩⟩
      obtain rfl := Except.ok.inj hr
      exact Bool.eq_false_iff.mpr hblocked

/-- A route only acts for a request that was admitted, and only as is permitted. -/
theorem next_route {c : Cmd} {r : Except Exc (Reply c)}
    (h : Progress.next config req route s ⟨.route c, r⟩ = some s') :
    s = .broken ∨ s = .admitted ∧ route.Permits config req c := by
  cases s with
  | broken => exact .inl rfl
  | arrived => cases h
  | answered => cases h
  | admitted =>
    refine .inr ⟨rfl, ?_⟩
    by_contra hc
    cases c <;> cases (if_neg hc).symm.trans h

/-- Each event in its place leaves the request where the trace says. -/
theorem agrees_step {e : HttpEvent} (hw : WritesOk t e) (h : s.Agrees req route t)
    (hnext : Progress.next config req route s e = some s') : s'.Agrees req route (e :: t) := by
  obtain ⟨c, r⟩ := e
  by_cases hbroken : s = .broken
  · rw [hbroken] at h
    exact h.elim
  cases c with
  | headersSent =>
    have hr : r = .ok (decide (answers t = 1)) := hw
    have hlooked : s.looked r = s' := by
      cases s <;> first | exact absurd rfl hbroken | exact Option.some.inj hnext
    have hkept : s.looked r = s := (congrArg s.looked hr).trans (looked_of_agrees h)
    rw [← hlooked, hkept]
    exact h.cons rfl
  | setHeader name value =>
    obtain ⟨u, rfl⟩ : ∃ u, r = .ok u := hw
    have hkept : s = s' := by
      cases s with
      | broken => exact absurd rfl hbroken
      | answered => cases hnext
      | arrived => exact Option.some.inj hnext
      | admitted => exact Option.some.inj hnext
    rw [← hkept]
    exact h.cons rfl
  | problem details =>
    obtain ⟨u, rfl⟩ : ∃ u, r = .ok u := hw
    have hanswered : s.isOpen ∧ .answered = s' := by
      cases s with
      | broken => exact absurd rfl hbroken
      | answered => cases hnext
      | arrived => exact ⟨.inl rfl, Option.some.inj hnext⟩
      | admitted => exact ⟨.inr rfl, Option.some.inj hnext⟩
    rw [← hanswered.2]
    exact h.answer hanswered.1 rfl
  | evaluateRateLimit p ip =>
    cases s with
    | broken => exact absurd rfl hbroken
    | answered => cases hnext
    | admitted => cases hnext
    | arrived =>
      by_cases hreq : req.authenticated = .ok p ∧ ip = clientIp req
      · obtain ⟨hp, rfl⟩ := hreq
        have hjudged : Progress.judged r = s' :=
          Option.some.inj ((if_pos ⟨hp, rfl⟩).symm.trans hnext)
        rw [← hjudged]
        exact h.judged hp r
      · cases (if_neg hreq).symm.trans hnext
  | route c =>
    obtain ⟨rfl, hc⟩ := (next_route hnext).resolve_left hbroken
    cases c with
    | respond response =>
      obtain ⟨u, rfl⟩ : ∃ u, r = .ok u := hw
      have hanswered : .answered = s' := Option.some.inj ((if_pos hc).symm.trans hnext)
      rw [← hanswered]
      exact h.answer (.inr rfl) rfl
    | _ =>
      have hkept : Progress.admitted = s' := Option.some.inj ((if_pos hc).symm.trans hnext)
      rw [← hkept]
      exact h.cons rfl

theorem agrees_start : (Progress.start route).Agrees req route [] := by
  cases route with
  | execute d => exact rfl
  | executeAsync d => exact rfl
  | getJob jobId => exact ⟨rfl, nofun⟩
  | deleteJob jobId => exact ⟨rfl, nofun⟩

/-- **A request is answered once, and served only when it may be.** In every run of the server on a
request of one of the four routes, whatever Redis answers and whatever raises, as long as writing to
the response does not: nothing escapes, exactly one answer is sent, and Redis is asked only before
it, only for what the route permits to the authenticated principal, and for a submission only after
the rate limiter has admitted that principal at its address or has failed. -/
theorem serve_answers {view : Exc → ErrorView} {out : Except Exc Unit}
    (h : Program.Runs (serve config view req route) [] out t) (ht : Reliable t) :
    out = .ok () ∧ answers t = 1 ∧ ∀ c r older, ⟨.route c, r⟩ :: older <:+ t →
      answers older = 0 ∧ route.Permits config req c ∧
        (route.isSubmission = true → Passed req older) := by
  obtain ⟨s, hs, hend⟩ := (serve_follows view).runs rfl h
  have hagrees : ∀ u s, u <:+ t →
      stageAfter (Progress.next config req route) (Progress.start route) u = some s →
      s.Agrees req route u := fun u s hu hs =>
    stageAfter_invariant agrees_start
      (fun s u e s' hsuf hinv hnext => agrees_step (ht e u hsuf) hinv hnext) hs hu
  rcases hend with rfl | ⟨rfl, rfl⟩
  · exact (hagrees t _ List.suffix_rfl hs).elim
  refine ⟨rfl, hagrees t _ List.suffix_rfl hs, fun c r older hsuf => ?_⟩
  obtain ⟨s₀, s₁, hs₀, hnext⟩ := stageAfter_event hs hsuf
  have holder := hagrees older s₀ ((List.suffix_cons _ _).trans hsuf) hs₀
  rcases next_route hnext with rfl | ⟨rfl, hc⟩
  · exact holder.elim
  · exact ⟨holder.1, hc, holder.2⟩

/-- The answers of a working response, and of Redis and the rate limiter as given. -/
def httpContract (services : HttpEvent → Prop) : Contract HttpCmd HttpReply Exc where
  allows _ _ := True
  answers older c r := WritesOk older ⟨c, r⟩ ∧ services ⟨c, r⟩

theorem reliable_of_admitted {services : HttpEvent → Prop}
    (h : Program.Admitted (httpContract services) [] t) : Reliable t :=
  fun e older hsuf => (h e older (List.nil_suffix) hsuf).1

/-! ### A failing Redis -/

end

/-! ### Samples -/

/-- Anna submits a program asynchronously. -/
def sampleHttpRequest : HttpRequest where
  path := str "/v1/execute/async"
  ip := some (str "10.0.0.1")
  remoteAddress := none
  arrival := .ok ()
  authenticated := .ok ⟨str "anna", .authenticated, .jwt⟩
  validated := .ok ⟨str "python", str "print(1)", none, 10, none, none⟩

/-- What its handler draws. -/
def sampleDraws : Draws where
  jobId := str "01ARZ3NDEKTSV4RRFFQ69G5FAV"
  traceparent := []
  nowIso := []
  groupEnsured := false
  polls := 0

/-- Every exception says that the circuit is open. -/
def sampleView (_ : Exc) : ErrorView := ⟨none, true, true, [], [], none, none, none⟩

/-- The server on the request in an environment. -/
def sampleServe (env : List HttpEvent → (c : HttpCmd) → Except Exc (HttpReply c)) :
    Except Exc Unit × List HttpEvent :=
  (serve ⟨5, 25, 30⟩ sampleView sampleHttpRequest (.executeAsync sampleDraws)).play env []

/-- Redis works, and the request is within its limits. -/
def workingEnv (t : List HttpEvent) : (c : HttpCmd) → Except Exc (HttpReply c)
  | .evaluateRateLimit _ _ => .ok ⟨false, 59, 0, 60⟩
  | .setHeader _ _ => .ok ()
  | .problem _ => .ok ()
  | .headersSent => .ok (decide (answers t = 1))
  | .route (.acquire _ _ _ _) => .ok true
  | .route .xgroupCreate => .ok true
  | .route (.enqueue _ _) => .ok ()
  | .route (.respond _) => .ok ()
  | .route _ => .error .other

theorem workingEnv_writes (t : List HttpEvent) (c : HttpCmd) :
    (httpContract fun _ => True).answers t c (workingEnv t c) := by
  refine ⟨?_, trivial⟩
  cases c with
  | evaluateRateLimit p ip => exact trivial
  | setHeader name value => exact ⟨(), rfl⟩
  | problem details => exact ⟨(), rfl⟩
  | headersSent => exact rfl
  | route c =>
    cases c with
    | respond response => exact ⟨(), rfl⟩
    | _ => exact trivial

/-- The sample is answered once, after the limiter, the quota and the queue were asked. -/
theorem serve_answers_sample :
    answers (sampleServe workingEnv).2 = 1 ∧ (sampleServe workingEnv).2.length = 7 := by
  have hreliable : Reliable (sampleServe workingEnv).2 :=
    reliable_of_admitted (Program.admitted_play workingEnv_writes _ _)
  exact ⟨(serve_answers (Program.runs_play _ _ _) hreliable).2.1, by decide +kernel⟩

end CodeInterpreter.Api
