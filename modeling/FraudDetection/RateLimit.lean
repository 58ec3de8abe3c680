import FraudDetection.Definition
import FraudDetection.Errors
import FraudDetection.Lib.StepSystem
import Mathlib.Data.Rat.Floor
import Mathlib.Logic.Function.Basic

/-!
# The rate limit

`RateLimiter.enforce`, of any number of replicas that share one Redis. A call reads the clock, and its counter is incremented and
given a new expiry in one transaction of Redis, at that time or later. One clock serves the replicas and Redis.
-/

namespace FraudDetection

/-- The settings of the limiter. -/
structure RateSettings where
  maxRequests : ℕ
  windowSeconds : ℕ
  requests_ok : 1 ≤ maxRequests
  window_ok : 1 ≤ windowSeconds

/-- `hashlib.sha256(...).hexdigest()[:32]`. -/
def subjectDigest (sha : Sha256) (subject : String) : String := String.ofList ((sha.hexdigest subject).toList.take 32)

/-- `_bucket_key`. -/
def bucketKey (sha : Sha256) (subject : String) (window : ℤ) : String :=
  "fraud:ratelimit:" ++ subjectDigest sha subject ++ ":" ++ toString window

/-- A counter in Redis, and when it vanishes. -/
structure RateCounter where
  count : ℕ
  expiresAt : ℚ

/-- The window a call falls in, by the time it has read. -/
def callWindow (settings : RateSettings) (now : ℚ) : ℤ := ⌊now / settings.windowSeconds⌋

/-- The seconds in `Retry-After`. -/
def retryAfter (settings : RateSettings) (now : ℚ) : ℤ :=
  max 1 ⌈((callWindow settings now : ℚ) + 1) * settings.windowSeconds - now⌉

/-- The error of a call whose budget is spent. -/
def tooManyRequests (retryAfter : ℤ) : HTTPException where
  status := 429
  detail := "Rate limit exceeded. Retry after the indicated number of seconds."
  headers := [("Retry-After", toString retryAfter)]

/-- How a call ends. -/
inductive RateOutcome where
  | allowed
  | rejected (retryAfter : ℤ)
  /-- Redis was unavailable, and the call was let through. -/
  | failedOpen
  deriving DecidableEq, Repr

/-- What a call raises. -/
def RateOutcome.raised : RateOutcome → Option HTTPException
  | .rejected retryAfter => some (tooManyRequests retryAfter)
  | _ => none

/-- Where a call is. -/
inductive RatePhase where
  | absent
  /-- It has read the clock, and its pipeline is on its way. -/
  | counting (subject : String) (now : ℚ)
  | finished (outcome : RateOutcome)

/-- A call whose pipeline was executed. The code keeps no such record. -/
structure RateCall where
  subject : String
  now : ℚ
  outcome : RateOutcome
  deriving DecidableEq, Repr

/-- The clock, Redis, the calls, and those that were executed, in that order. -/
structure RateState where
  now : ℚ
  counters : String → Option RateCounter
  calls : ℕ → RatePhase
  executed : List RateCall

/-- What happens. -/
inductive RateEvent where
  | tick (duration : ℚ)
  /-- `enforce` is called, and reads the clock. -/
  | enforce (call : ℕ) (subject : String)
  /-- Redis executes the pipeline of a call. -/
  | execute (call : ℕ)
  /-- The pipeline of a call raises. -/
  | unavailable (call : ℕ)

/-- `INCR`: the count of a key, which starts again where it has expired. -/
def incremented (s : RateState) (key : String) : ℕ :=
  match s.counters key with
  | some counter => if s.now < counter.expiresAt then counter.count + 1 else 1
  | none => 1

/-- What `enforce` makes of the count. -/
def rateOutcome (settings : RateSettings) (now : ℚ) (count : ℕ) : RateOutcome :=
  if count > settings.maxRequests then .rejected (retryAfter settings now) else .allowed

/-- Redis executes the pipeline of a call: `INCR`, and `EXPIRE` a second after a window has passed. -/
def RateState.execute (sha : Sha256) (settings : RateSettings) (s : RateState) (c : ℕ) (subject : String) (now : ℚ) : RateState :=
  let key := bucketKey sha subject (callWindow settings now)
  let outcome := rateOutcome settings now (incremented s key)
  { now := s.now
    counters := Function.update s.counters key (some ⟨incremented s key, s.now + settings.windowSeconds + 1⟩)
    calls := Function.update s.calls c (.finished outcome)
    executed := s.executed ++ [⟨subject, now, outcome⟩] }

/-- What a step does. -/
def rateStep (sha : Sha256) (settings : RateSettings) (s : RateState) : RateEvent → Option RateState
  | .tick duration => if 0 ≤ duration then some { s with now := s.now + duration } else none
  | .enforce c subject =>
    match s.calls c with
    | .absent => some { s with calls := Function.update s.calls c (.counting subject s.now) }
    | _ => none
  | .execute c =>
    match s.calls c with
    | .counting subject now => some (s.execute sha settings c subject now)
    | _ => none
  | .unavailable c =>
    match s.calls c with
    | .counting _ _ => some { s with calls := Function.update s.calls c (.finished .failedOpen) }
    | _ => none

/-- The limiter, from any time on, before any call. -/
def rateLimiting (sha : Sha256) (settings : RateSettings) : StepSystem RateState RateEvent where
  start s := ∃ now, s = ⟨now, fun _ => none, fun _ => .absent, []⟩
  step := rateStep sha settings

end FraudDetection
