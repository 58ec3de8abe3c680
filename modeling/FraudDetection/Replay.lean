import FraudDetection.Handling
import FraudDetection.Lib.StepSystem

/-!
# Replaying dead letters

`scripts/replay_dlq.py`: a run polls dead letters, produces each to its source topic, waits in `flush`, and commits its offset.
Runs come one after another, each from the group's committed offsets, while the worker goes on appending dead letters. A run can
end anywhere.
-/

namespace FraudDetection

/-! ## Dead letters in their topic -/

/-- The headers of a message: names, and values as `decode("utf-8", "replace")` gives them. A value may be missing. -/
abbrev Headers := List (String × Option String)

/-- A message of the DLQ topic. Its offset is its place in its partition. -/
structure DlqMessage where
  key : Option (List UInt8)
  value : Option (List UInt8)
  headers : Headers
  deriving DecidableEq, Repr

/-- `build_dlq_headers`, given the class and the description of the error and the time. -/
def buildDlqHeaders (letter : DeadLetter) (errorType errorMessage failedAt : String) : Headers :=
  [("dlq.schema_version", some "1"),
    ("dlq.error.class", some letter.failureClass.value),
    ("dlq.error.type", some errorType),
    ("dlq.error.message", some errorMessage),
    ("dlq.source.topic", some letter.sourceTopic),
    ("dlq.source.partition", some (toString letter.sourcePartition)),
    ("dlq.source.offset", some (toString letter.sourceOffset)),
    ("dlq.attempts", some (toString letter.attempts)),
    ("dlq.failed_at", some failedAt)] ++
  (letter.correlationId.filter (· ≠ "")).toList.map fun id => ("correlation_id", some id)

/-- `dict(headers).get(name)`: of equal names the last one counts. -/
def Headers.get (headers : Headers) (name : String) : Option String := (headers.reverse.find? (·.1 == name)).bind (·.2)

/-- The dict of the headers cannot be built: a value is missing. -/
def Headers.incomplete (headers : Headers) : Bool := headers.any (·.2.isNone)

/-- The topic a message is replayed to: `headers.get("dlq.source.topic")`, if it is not empty. -/
def DlqMessage.sourceTopic (message : DlqMessage) : Option String :=
  (message.headers.get "dlq.source.topic").filter (· ≠ "")

/-! ## Runs -/

/-- What has become of a message that was produced. -/
inductive Delivery where
  /-- Queued or in flight. -/
  | queued
  | acknowledged
  /-- Its delivery failed: it is no longer queued, and only a delivery callback would say so. -/
  | rejected
  deriving DecidableEq, Repr

/-- Where the script is: not running, at the head of its loop, or with a message at hand. -/
inductive ReplayPhase where
  | ended
  | polling (replayed : ℕ)
  | polled (replayed partition offset : ℕ)
  | produced (replayed partition offset : ℕ) (delivery : Delivery)
  | committing (replayed partition offset : ℕ) (delivery : Delivery)
  deriving DecidableEq, Repr

/-- The DLQ topic, the replay group's offsets, and the run. -/
structure ReplayState where
  log : ℕ → List DlqMessage
  /-- The group's committed offset of a partition; 0, the earliest, when there is none. -/
  committed : ℕ → ℕ
  /-- The messages, by partition and offset, that their source topics have acknowledged. The script does not see them. -/
  acknowledged : List (ℕ × ℕ)
  /-- The offset of the next message that is polled from a partition. -/
  position : ℕ → ℕ
  /-- `--max`. -/
  max : ℤ
  phase : ReplayPhase

/-- How `consumer.commit` ends. -/
inductive CommitOutcome where
  | returned
  /-- It raises, with the offset committed or not. -/
  | raised (stored : Bool)
  deriving DecidableEq, Repr

/-- Whether the group's offset has moved. -/
def CommitOutcome.stored : CommitOutcome → Bool
  | .returned => true
  | .raised stored => stored

/-- What happens. -/
inductive ReplayEvent where
  /-- A dead letter is published. -/
  | append (partition : ℕ) (message : DlqMessage)
  /-- The script is run. -/
  | start (max : ℤ)
  /-- `consumer.poll` returns a message of a partition, or none. -/
  | poll (partition : Option ℕ)
  /-- The message at hand is skipped or produced. -/
  | handle
  /-- The broker answers. -/
  | deliver (acknowledged : Bool)
  /-- `producer.flush(15)` returns. -/
  | flush
  /-- `consumer.commit` ends. -/
  | commit (outcome : CommitOutcome)
  /-- The run ends: an error is polled, an exception leaves the loop, or the process is killed. -/
  | stop

/-- A step of the script, of the broker or of a worker. -/
def replayStep (s : ReplayState) : ReplayEvent → Option ReplayState
  | .append partition message =>
    some { s with log := Function.update s.log partition (s.log partition ++ [message]) }
  | .start max =>
    match s.phase with
    | .ended => some { s with max := max, position := s.committed, phase := .polling 0 }
    | _ => none
  | .poll partition =>
    match s.phase with
    | .polling replayed =>
      if (replayed : ℤ) < s.max then
        match partition with
        | none => some { s with phase := .ended }
        | some partition =>
          let offset := s.position partition
          if offset < (s.log partition).length then
            some { s with
              position := Function.update s.position partition (offset + 1)
              phase := .polled replayed partition offset }
          else none
      else some { s with phase := .ended }
    | _ => none
  | .handle =>
    match s.phase with
    | .polled replayed partition offset =>
      match (s.log partition)[offset]? with
      | none => none
      | some message =>
        -- a header without a value has no `decode`
        if message.headers.incomplete then some { s with phase := .ended }
        else
          match message.sourceTopic with
          | none => some { s with phase := .polling replayed }
          | some _ => some { s with phase := .produced replayed partition offset .queued }
    | _ => none
  | .deliver acknowledged =>
    match s.phase with
    | .produced replayed partition offset .queued =>
      if acknowledged then
        some { s with
          acknowledged := (partition, offset) :: s.acknowledged
          phase := .produced replayed partition offset .acknowledged }
      else some { s with phase := .produced replayed partition offset .rejected }
    | _ => none
  | .flush =>
    match s.phase with
    -- it returns how many messages are still queued or in flight
    | .produced _ _ _ .queued => some { s with phase := .ended }
    | .produced replayed partition offset delivery => some { s with phase := .committing replayed partition offset delivery }
    | _ => none
  | .commit outcome =>
    match s.phase with
    | .committing replayed partition offset _ =>
      some { s with
        committed := if outcome.stored then Function.update s.committed partition (offset + 1) else s.committed
        phase := if outcome = .returned then .polling (replayed + 1) else .ended }
    | _ => none
  | .stop =>
    match s.phase with
    | .ended => none
    | _ => some { s with phase := .ended }

/-- Runs of the script on a DLQ topic, the first of them with a new group. -/
def replay : StepSystem ReplayState ReplayEvent where
  start s := (∀ partition, s.committed partition = 0) ∧ s.acknowledged = [] ∧ s.phase = .ended
  step := replayStep

end FraudDetection
