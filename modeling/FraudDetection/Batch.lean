import FraudDetection.Decisions

/-!
# The daily summary

`summarize_transactions`, whose two statements each see what is committed before they start, and the resident batch worker, which
calls it once a day for the last `BATCH_SUMMARY_WINDOW_HOURS`. Decisions are recorded all the while, and time passes between any two
steps. One clock serves the worker and the database, and it does not go back.
-/

namespace FraudDetection

/-! ## `summarize_transactions` -/

/-- What it returns. The categories are those of a dictionary, in no order that means anything. -/
structure Summary where
  total : ℕ
  fraud : ℕ
  byCategory : List (String × ℕ)
  deriving DecidableEq, Repr

/-- `created_at >= since`. -/
def madeSince (since : Timestamp) (rows : List TransactionRecord) : List TransactionRecord :=
  rows.filter fun row => since ≤ row.createdAt

/-- The first statement: how many decisions there are, and how many of them are fraudulent. -/
def summaryTotals (since : Timestamp) (rows : List TransactionRecord) : ℕ × ℕ :=
  ((madeSince since rows).length, ((madeSince since rows).filter (·.isFraud)).length)

/-- The second statement: how many there are of each category. -/
def summaryCategories (since : Timestamp) (rows : List TransactionRecord) : List (String × ℕ) :=
  let categories := (madeSince since rows).map (·.category)
  categories.dedup.map fun category => (category, categories.count category)

/-- Where a call is. The code keeps no `rows` and no `laterRows`, the table as either statement saw it. -/
inductive SummaryPhase where
  | called (since : Timestamp)
  /-- The first statement has run. -/
  | totalled (since : Timestamp) (totals : ℕ × ℕ) (rows : List TransactionRecord)
  | returned (since : Timestamp) (summary : Summary) (rows laterRows : List TransactionRecord)

/-- A statement of a call. -/
inductive SummaryStatement where
  | totals | categories

/-- What a statement does, on a table. -/
def SummaryPhase.step (rows : List TransactionRecord) : SummaryPhase → SummaryStatement → Option SummaryPhase
  | .called since, .totals => some (.totalled since (summaryTotals since rows) rows)
  | .totalled since totals firstRows, .categories =>
    some (.returned since ⟨totals.1, totals.2, summaryCategories since rows⟩ firstRows rows)
  | _, _ => none

/-- The rows of `transactions` that are committed. -/
def DecisionsState.records (s : DecisionsState) : List TransactionRecord := s.transactions.rows.map (·.record)

/-- A step of `record_decision`, or a statement of the call. -/
inductive SummaryEvent where
  | record (event : RecordEvent)
  | statement (statement : SummaryStatement)

/-- A call of `summarize_transactions`, for any time, beside any calls of `record_decision`. -/
def summarizing (data : Position → TransactionData) : StepSystem (DecisionsState × SummaryPhase) SummaryEvent where
  start s := ∃ since, s = (.empty, .called since)
  step s
    | .record event => (recordStep data s.1 event).map fun decisions => (decisions, s.2)
    | .statement statement => (s.2.step s.1.records statement).map fun call => (s.1, call)

/-! ## The batch worker -/

/-- The settings of the batch worker. -/
structure BatchSettings where
  runHour : ℕ
  runMinute : ℕ
  windowHours : ℕ
  hour_ok : runHour ≤ 23
  minute_ok : runMinute ≤ 59
  window_ok : 1 ≤ windowHours

/-- An hour, and a day, in microseconds. -/
def hour : ℤ := 3600000000
def day : ℤ := 24 * hour

/-- The next `run_hour:run_minute` after a time: today's, or else tomorrow's. -/
def nextRun (settings : BatchSettings) (now : Timestamp) : Timestamp :=
  let target := now / day * day + settings.runHour * hour + settings.runMinute * 60000000
  if target ≤ now then target + day else target

/-- `seconds_until_next_run`, in microseconds. -/
def untilNextRun (settings : BatchSettings) (now : Timestamp) : ℤ := nextRun settings now - now

/-- A run that has logged its summary. The code keeps no such record. -/
structure SummaryRun where
  startedAt : Timestamp
  since : Timestamp
  summary : Summary
  /-- The table as the first statement saw it. -/
  rows : List TransactionRecord
  deriving DecidableEq

/-- Where the worker is. -/
inductive BatchPhase where
  /-- At the head of its loop. -/
  | scheduling
  | waiting (until_ : Timestamp)
  /-- The wait is over. -/
  | woken
  /-- In `run_summary`, which has taken the time. -/
  | running (startedAt : Timestamp) (call : SummaryPhase)
  | stopped

/-- The clock, the tables, the worker, and the runs so far. -/
structure BatchState where
  now : Timestamp
  decisions : DecisionsState
  phase : BatchPhase
  runs : List SummaryRun

/-- What happens. -/
inductive BatchEvent where
  | tick (elapsed : ℕ)
  | record (event : RecordEvent)
  | schedule
  /-- The wait ends, at the end of the delay or later. -/
  | wake
  /-- `run_summary` takes the time. -/
  | begin
  | statement (statement : SummaryStatement)
  /-- `run_summary` raises. -/
  | fail
  | stop

/-- An insert takes the time its transaction began as the time of its decision. -/
def RecordEvent.began (now : Timestamp) : RecordEvent → Bool
  | .insertDecision _ createdAt => decide (createdAt ≤ now)
  | _ => true

/-- What a step does. -/
def batchStep (data : Position → TransactionData) (settings : BatchSettings) (s : BatchState) : BatchEvent → Option BatchState
  | .tick elapsed => some { s with now := s.now + elapsed }
  | .record event =>
    if event.began s.now then (recordStep data s.decisions event).map fun decisions => { s with decisions := decisions }
    else none
  | .schedule =>
    match s.phase with
    | .scheduling => some { s with phase := .waiting (s.now + untilNextRun settings s.now) }
    | _ => none
  | .wake =>
    match s.phase with
    | .waiting until_ => if until_ ≤ s.now then some { s with phase := .woken } else none
    | _ => none
  | .begin =>
    match s.phase with
    | .woken => some { s with phase := .running s.now (.called (s.now - settings.windowHours * hour)) }
    | _ => none
  | .statement statement =>
    match s.phase with
    | .running startedAt call =>
      match call.step s.decisions.records statement with
      | some (.returned since summary rows _) =>
        some { s with phase := .scheduling, runs := s.runs ++ [⟨startedAt, since, summary, rows⟩] }
      | some call => some { s with phase := .running startedAt call }
      | none => none
    | _ => none
  | .fail =>
    match s.phase with
    | .running _ _ => some { s with phase := .scheduling }
    | _ => none
  | .stop =>
    match s.phase with
    | .scheduling | .waiting _ => some { s with phase := .stopped }
    | _ => none

/-- The resident worker, from any time on. -/
def batchWorker (data : Position → TransactionData) (settings : BatchSettings) : StepSystem BatchState BatchEvent where
  start s := ∃ now, s = ⟨now, .empty, .scheduling, []⟩
  step := batchStep data settings

end FraudDetection
