import FraudDetection.Errors
import FraudDetection.Decisions
import FraudDetection.Lib.Binary64

/-!
# Handling one message

`FraudWorker._handle`: the loop that processes a message until it succeeds, publishes its dead letter once it has been judged
undeliverable, and gives up only when its partition is stopping. What `handler.process` and `dead_letters.publish` come to is not
up to the worker: each is a call, and an event says how it ended.
-/

namespace FraudDetection

/-! ## Backoff -/

/-- What `random.random()` returns, in units of `2 ^ -53`. -/
abbrev Random := Fin (2 ^ 53)

/-- `random.uniform(0.5, 1.0)`. -/
def uniform (random : Random) : ℚ := Binary64.round (1 / 2 + 1 / 2 * (random / 2 ^ 53))

/-- `retry_delay`: capped exponential backoff with jitter; `none` when it raises `OverflowError`, which the product of a float and
a whole number does when the whole number has no float. -/
def retryDelay (attempt : ℕ) (initial maximum : Binary64) (random : Random) : Option Binary64 :=
  if 1024 ≤ attempt - 1 then none
  else
    let capped := maximum.min (initial.scale (2 ^ (attempt - 1)))
    some (capped.scale (uniform random))

/-- The settings of the worker that its loops read. -/
structure WorkerSettings where
  maxUnexpectedErrorAttempts : ℕ
  retryInitialBackoff : Binary64
  retryMaxBackoff : Binary64
  partitionHighWatermark : ℕ
  attempts_ok : 1 ≤ maxUnexpectedErrorAttempts
  initial_ok : retryInitialBackoff.IsPositive
  maximum_ok : retryMaxBackoff.IsPositive
  ordered_ok : retryInitialBackoff.le retryMaxBackoff = true
  watermark_ok : 1 ≤ partitionHighWatermark

/-! ## Messages and dead letters -/

/-- A message of Kafka, as the worker reads it. -/
structure Message where
  topic : String
  partition : ℕ
  offset : ℕ
  key : Option (List UInt8)
  value : Option (List UInt8)
  /-- `none` when the message has no timestamp. -/
  timestampMs : Option ℤ
  deriving DecidableEq

/-- Where a message came from. -/
def Message.provenance (message : Message) : MessageProvenance where
  topic := message.topic
  partition := message.partition
  offset := message.offset
  timestampMs := message.timestampMs

/-- `DeadLetter`: a message that will not be processed, its original bytes plus why and where it failed. -/
structure DeadLetter where
  sourceTopic : String
  sourcePartition : ℕ
  sourceOffset : ℕ
  key : Option (List UInt8)
  value : Option (List UInt8)
  error : PyException
  failureClass : FailureClass
  attempts : ℕ
  correlationId : Option String
  deriving DecidableEq

/-- The dead letter of a message, after a failure. -/
def Message.deadLetter (message : Message) (error : PyException) (attempts : ℕ) (correlationId : Option String) :
    DeadLetter where
  sourceTopic := message.topic
  sourcePartition := message.partition
  sourceOffset := message.offset
  key := message.key
  value := message.value
  error := error
  failureClass := classifyFailure error
  attempts := attempts
  correlationId := correlationId

/-! ## The loop -/

/-- How a call ended: it returned, or raised an `Exception`. -/
abbrev CallResult := Except PyException Unit

/-- A call the loop made, and how it ended. -/
inductive Call where
  | process (value : Option (List UInt8)) (provenance : MessageProvenance) (result : CallResult)
  | publish (letter : DeadLetter) (result : CallResult)

/-- How the call ended. -/
def Call.result : Call → CallResult
  | .process _ _ result => result
  | .publish _ result => result

/-- Whether it returned. -/
def Call.succeeded (call : Call) : Bool := call.result.isOk

/-- What leaves `_handle` other than its result. -/
inductive HandlingError where
  | cancelledError
  | overflowError
  deriving DecidableEq, Repr

/-- Where the loop is: at one of its awaits, or left. -/
inductive HandlingPhase where
  | processing
  | publishing (letter : DeadLetter)
  | waiting (delay : Binary64)
  | returned (handled : Bool)
  | raised (error : HandlingError)
  deriving DecidableEq

/-- The loop's variables, and the calls it has made. -/
structure Handling where
  phase : HandlingPhase
  attempt : ℕ
  unexpectedFailures : ℕ
  pendingLetter : Option DeadLetter
  calls : List Call

/-- What happens to the loop. -/
inductive HandlingEvent where
  /-- `handler.process` ends, with this correlation id bound; the random number is that of a retry's delay. -/
  | processed (result : CallResult) (correlationId : Option String) (random : Random)
  | published (result : CallResult) (random : Random)
  /-- The wait ends: its delay is over, or the partition is stopping. -/
  | wake
  | cancel

namespace Handling

/-- `while not state.stopping.is_set()`, and the start of a pass. -/
def pass (stopping : Bool) (h : Handling) : Handling :=
  if stopping then { h with phase := .returned false }
  else { h with
    attempt := h.attempt + 1
    phase := match h.pendingLetter with
      | none => .processing
      | some letter => .publishing letter }

/-- The loop as it is entered. -/
def enter (stopping : Bool) : Handling :=
  pass stopping { phase := .processing, attempt := 0, unexpectedFailures := 0, pendingLetter := none, calls := [] }

/-- A call is over. -/
def record (h : Handling) (call : Call) : Handling := { h with calls := h.calls ++ [call] }

/-- Wait before the next pass. -/
def retry (settings : WorkerSettings) (random : Random) (h : Handling) : Handling :=
  match retryDelay h.attempt settings.retryInitialBackoff settings.retryMaxBackoff random with
  | none => { h with phase := .raised .overflowError }
  | some delay => { h with phase := .waiting delay }

/-- Processing raised `error`: judge the message undeliverable, or try again. -/
def fail (settings : WorkerSettings) (message : Message) (stopping : Bool) (error : PyException)
    (correlationId : Option String) (random : Random) (h : Handling) : Handling :=
  let failure := classifyFailure error
  let h := if failure = .unexpected then { h with unexpectedFailures := h.unexpectedFailures + 1 } else h
  if failure = .permanent ∨
      (failure = .unexpected ∧ settings.maxUnexpectedErrorAttempts ≤ h.unexpectedFailures) then
    pass stopping { h with pendingLetter := some (message.deadLetter error h.attempt correlationId) }
  else retry settings random h

/-- `_handle`, from one await to the next. -/
def step (settings : WorkerSettings) (message : Message) (stopping : Bool) (h : Handling) : HandlingEvent → Option Handling
  | .processed result correlationId random =>
    match h.phase with
    | .processing =>
      let h := h.record (.process message.value message.provenance result)
      match result with
      | .ok () => some { h with phase := .returned true }
      | .error error => some (h.fail settings message stopping error correlationId random)
    | _ => none
  | .published result random =>
    match h.phase with
    | .publishing letter =>
      let h := h.record (.publish letter result)
      match result with
      | .ok () => some { h with phase := .returned true }
      | .error _ => some (h.retry settings random)
    | _ => none
  | .wake =>
    match h.phase with
    | .waiting _ => some (h.pass stopping)
    | _ => none
  | .cancel =>
    match h.phase with
    | .processing | .publishing _ | .waiting _ => some { h with phase := .raised .cancelledError }
    | _ => none

end Handling

/-- What happens while one message is handled: something to the loop, or its partition is told to stop. -/
inductive MessageEvent where
  | handling (event : HandlingEvent)
  | stop

/-- The handling of one message, whatever its calls come to and whenever its partition is told to stop. -/
def handling (settings : WorkerSettings) (message : Message) : StepSystem (Bool × Handling) MessageEvent where
  start s := ∃ stopping, s = (stopping, .enter stopping)
  step s
    | .handling event => (s.2.step settings message s.1 event).map fun h => (s.1, h)
    | .stop => some (true, s.2)

end FraudDetection
