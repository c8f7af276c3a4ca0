import CodeInterpreter.Js.Clock
import CodeInterpreter.Redis
import Mathlib.Data.List.Lex

/-!
# The rate limiter

The sliding-window limiter of `api/src/middleware/rateLimiter.ts`: its Lua script on the sorted set
of one key, the check of one scope, and the combined verdict over the user and the IP. The sorted
sets have the shape of the concurrency sets, and Redis expires keys on the clock of the checks.

The script computes with doubles, the model with integers. They agree as long as the clock readings
are those of `Date.now` and a window is not longer than `2 ^ 48` milliseconds (`script_doubles`).

An `Async.Answer` says how Redis answered the script: with its reply, or with an error, after which
the script may have run or not.

## Main definitions

* `SlotSet.slide`: the script `SLIDING_WINDOW_LUA`.
* `check`: `SlidingWindowRateLimiter.check`.
* `limitForTier`, `evaluateRateLimit`.

## Main results

* `script_doubles`: the arithmetic of the script is exact on readings of `Date.now`.
-/

namespace CodeInterpreter

/-- The entries of a sorted set that are still in the window of the given length. -/
def SlotSet.window (z : SlotSet) (now windowMs : ℕ) : List (Str × ℕ) :=
  (z.current now).filter fun m => now < m.2 + windowMs

/-- Order of `ZRANGE`: by score, then by member. -/
def rankedBefore (a b : Str × ℕ) : Bool := a.2 < b.2 || (a.2 == b.2 && decide (a.1 ≤ b.1))

/-- The first entry in the order of `ZRANGE`. -/
def oldest : List (Str × ℕ) → Option (Str × ℕ)
  | [] => none
  | m :: rest =>
    match oldest rest with
    | none => some m
    | some m' => some (if rankedBefore m m' then m else m')

/-- What the script returns: whether the request is admitted, how many more would be, and after
how many milliseconds the next one is. -/
structure RateLimitOutcome where
  allowed : Bool
  remaining : ℕ
  retryAfterMs : ℕ
  deriving DecidableEq

/-- The script `SLIDING_WINDOW_LUA`: evict, count, and admit when the count is below the limit. -/
def SlotSet.slide (z : SlotSet) (now : ℕ) (member : Str) (windowMs limit : ℕ) :
    SlotSet × RateLimitOutcome :=
  let kept := z.window now windowMs
  let count := kept.length
  if count < limit then
    (⟨(member, now) :: kept.filter (fun m => m.1 ≠ member), some (now + windowMs)⟩,
      ⟨true, limit - count - 1, 0⟩)
  else
    let retry :=
      match oldest kept with
      | some m => m.2 + windowMs - now
      | none => windowMs
    (⟨kept, z.expiry⟩, ⟨false, 0, max retry 1⟩)

/-- For readings of `Date.now`, the bound up to which the script evicts, and the time until the
oldest entry leaves the window, are integers that a double holds. -/
theorem script_doubles (now score : TimeValue) {windowMs : ℕ} (hwindow : windowMs ≤ 2 ^ 48) :
    IsDouble ((now.ms - windowMs : ℤ) : ℚ) ∧
      IsDouble ((score.ms + windowMs : ℤ) : ℚ) ∧
      IsDouble ((score.ms + windowMs - now.ms : ℤ) : ℚ) := by
  have hnow := now.le_max
  have hscore := score.le_max
  unfold maxTime at hnow hscore
  refine ⟨isDouble_intCast ?_, isDouble_intCast ?_, isDouble_intCast ?_⟩ <;>
    · rw [abs_le]
      omega

namespace Api

/-- The sorted sets of the rate limiter. -/
abbrev RateLimits := Str → SlotSet

/-- The arguments of one check: its key and limits, the reading of `Date.now` and the ULID drawn. -/
structure Check where
  key : Str
  limit : ℕ
  windowMs : ℕ
  now : ℕ
  member : Str

/-- The sorted sets after the script of a check. -/
def Check.store (c : Check) (sets : RateLimits) : RateLimits :=
  Function.update sets c.key ((sets c.key).slide c.now c.member c.windowMs c.limit).1

/-- What the script of a check returns. -/
def Check.outcome (c : Check) (sets : RateLimits) : RateLimitOutcome :=
  ((sets c.key).slide c.now c.member c.windowMs c.limit).2

/-- The outcome of a check whose script failed: open, or the exception again. -/
def failed (failOpen : Bool) (limit : ℕ) (e : Exc) : Except Exc RateLimitOutcome :=
  if failOpen then .ok ⟨true, limit, 0⟩ else .error e

/-- `SlidingWindowRateLimiter.check`. -/
def check (failOpen : Bool) (answer : Async.Answer Exc Unit) (c : Check) (sets : RateLimits) :
    RateLimits × Except Exc RateLimitOutcome :=
  if c.limit = 0 then (sets, .ok ⟨false, 0, c.windowMs⟩)
  else
    match answer with
    | .reply _ => (c.store sets, .ok (c.outcome sets))
    | .lost e => (sets, failed failOpen c.limit e)
    | .unheard e _ => (c.store sets, failed failOpen c.limit e)

/-- The rate limits of the configuration, which are positive. -/
structure RateLimitConfig where
  requestsPerMinute : ℕ
  anonPerMinute : ℕ
  premiumPerMinute : ℕ
  requests_pos : 0 < requestsPerMinute := by decide
  anon_pos : 0 < anonPerMinute := by decide
  premium_pos : 0 < premiumPerMinute := by decide

/-- The requests per minute of a tier. -/
def limitForTier (config : RateLimitConfig) : UserTier → ℕ
  | .premium => config.premiumPerMinute
  | .authenticated => config.requestsPerMinute
  | .anonymous => config.anonPerMinute

/-- The length of the window in milliseconds. -/
def windowMs : ℕ := 60000

/-- The key of a scope. -/
def rateLimitKey (scope id : Str) : Str := str "sandbox:ratelimit:" ++ scope ++ str ":" ++ id

/-- The combined verdict. -/
structure RateLimitVerdict where
  blocked : Bool
  remaining : ℕ
  retryAfterMs : ℕ
  userLimit : ℕ
  deriving DecidableEq

/-- A request that the limiter judges: who sends it from where, and the clock reading and the ULID
that each of the two checks draws. -/
structure Judged where
  principal : Principal
  ip : Str
  userNow : ℕ
  userMember : Str
  ipNow : ℕ
  ipMember : Str

/-- The check of the user's scope. -/
def Judged.userCheck (config : RateLimitConfig) (q : Judged) : Check where
  key := rateLimitKey (str "user") q.principal.userId
  limit := limitForTier config q.principal.tier
  windowMs := windowMs
  now := q.userNow
  member := q.userMember

/-- The check of the scope of the IP, whose limit is at least the premium one. -/
def Judged.ipCheck (config : RateLimitConfig) (q : Judged) : Check where
  key := rateLimitKey (str "ip") q.ip
  limit := max (limitForTier config q.principal.tier) config.premiumPerMinute
  windowMs := windowMs
  now := q.ipNow
  member := q.ipMember

/-- `evaluateRateLimit`: the two scripts are sent in this order and answered separately. -/
def evaluateRateLimit (config : RateLimitConfig) (q : Judged)
    (userAnswer ipAnswer : Async.Answer Exc Unit) (sets : RateLimits) :
    RateLimits × Except Exc RateLimitVerdict :=
  let user := check true userAnswer (q.userCheck config) sets
  let ip := check true ipAnswer (q.ipCheck config) user.1
  (ip.1, do
    let userOutcome ← user.2
    let ipOutcome ← ip.2
    return {
      blocked := !userOutcome.allowed || !ipOutcome.allowed
      remaining := min userOutcome.remaining ipOutcome.remaining
      retryAfterMs := max userOutcome.retryAfterMs ipOutcome.retryAfterMs
      userLimit := limitForTier config q.principal.tier })

end Api

end CodeInterpreter
