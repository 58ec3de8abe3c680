import FraudDetection.Parsing
import FraudDetection.Decisions

/-!
# Scoring a transaction

`score_transaction` and the velocity query it makes, and its two callers: the worker, for an event, and the evaluate endpoint, for
a hypothetical transaction that is not stored.
-/

namespace FraudDetection

/-! ## Velocity -/

/-- `coalesce(sum(amount), 0)`. -/
def sumAmounts : List Money → Decimal
  | [] => .ofInt 0
  | amounts => ⟨(amounts.map fun m => (m.units : ℤ)).sum, -2⟩

/-- The statement of `get_velocity_aggregates`: the count of a user's other transactions in a window, and the sum of those in a
currency. -/
def velocityAggregates (rows : List TransactionRecord) (userId : Uuid) (windowStart windowEnd : Timestamp)
    (excludeTransactionId : Uuid) (currency : String) : ℕ × Decimal :=
  let matching := rows.filter fun row =>
    decide (row.userId = userId) && decide (windowStart ≤ row.occurredAt) && decide (row.occurredAt ≤ windowEnd) &&
      decide (row.transactionId ≠ excludeTransactionId)
  (matching.length, sumAmounts ((matching.filter fun row => row.currency = currency).map (·.amount)))

/-- `get_velocity_aggregates`. The driver writes both ends of the window in UTC: `none` is its `DataError` about one that a
`datetime` cannot hold there. -/
def getVelocityAggregates (rows : List TransactionRecord) (userId : Uuid) (windowStart windowEnd : Timestamp)
    (excludeTransactionId : Uuid) (currency : String) : Option (ℕ × Decimal) :=
  match datetimeOf windowStart, datetimeOf windowEnd with
  | some windowStart, some windowEnd => some (velocityAggregates rows userId windowStart windowEnd excludeTransactionId currency)
  | _, _ => none

/-! ## `score_transaction` -/

/-- The keyword arguments of `score_transaction`. A `datetime` is a wall-clock time, in microseconds, and its offset from UTC, in
seconds. A currency is a `CurrencyCode`, so PostgreSQL takes it as a parameter. -/
structure ScoreInput where
  transactionId : Option Uuid
  userId : Uuid
  wall : ℤ
  offset : ℤ
  amount : Money
  currency : String
  category : String
  channel : Option String
  country : Option String
  enrichment : List (String × Feature)

/-- `occurred_at`, as a point in time. -/
def ScoreInput.occurredAt (input : ScoreInput) : Timestamp := input.wall - input.offset * 1000000

/-- `occurred_at - window`, in wall-clock time; `none` when it raises `OverflowError`. -/
def ScoreInput.windowStart (input : ScoreInput) (window : ℕ) : Option ℤ := datetimeOf (input.wall - window * 1000000)

/-- What `score_transaction` passes as the transaction to leave out: `UUID(int=0)` when there is none. -/
def ScoreInput.excludeTransactionId (input : ScoreInput) : Uuid := input.transactionId.getD ⟨0⟩

/-- The context of a transaction, given its velocity. -/
def ScoreInput.context (input : ScoreInput) (priorCount : ℕ) (priorAmount : Decimal) : EvaluationContext where
  amount := input.amount.value
  currency := input.currency
  category := input.category
  priorCount := priorCount
  priorAmount := priorAmount
  channel := input.channel
  country := input.country
  enrichment := input.enrichment

/-- `Score`: the assessment plus the velocity inputs it was based on. -/
structure Score where
  assessment : Assessment
  priorCount : ℕ
  priorAmount : Decimal
  deriving DecidableEq, Repr

/-- What `score_transaction` can raise, an outage of the database aside. -/
inductive ScoreError where
  | overflowError
  /-- The driver's, about an end of the window. -/
  | dataError
  | scoring (error : ScoringError)
  deriving DecidableEq, Repr

/-- The velocity of a transaction: its window, and the query. -/
def ScoreInput.velocity (input : ScoreInput) (rows : List TransactionRecord) (window : ℕ) : Except ScoreError (ℕ × Decimal) :=
  match input.windowStart window with
  | none => .error .overflowError
  | some start =>
    match getVelocityAggregates rows input.userId (start - input.offset * 1000000) input.occurredAt input.excludeTransactionId
        input.currency with
    | none => .error .dataError
    | some velocity => .ok velocity

/-- `score_transaction`. -/
def scoreTransaction (rows : List TransactionRecord) (definition : RuleSetDefinition) (input : ScoreInput) :
    Except ScoreError Score :=
  match input.velocity rows definition.velocityWindowSeconds with
  | .error e => .error e
  | .ok (priorCount, priorAmount) =>
    match evaluateRuleSet definition (input.context priorCount priorAmount) with
    | .error e => .error (.scoring e)
    | .ok assessment => .ok ⟨assessment, priorCount, priorAmount⟩

/-! ## Its callers -/

/-- What `TransactionProcessor.process` scores: an event, whose time is in UTC. -/
def ScoreInput.ofEvent (event : TransactionCreatedV1) : ScoreInput where
  transactionId := some event.transactionId
  userId := event.userId
  wall := event.occurredAt
  offset := 0
  amount := event.amount
  currency := event.currency
  category := event.category
  channel := event.channel
  country := event.country
  enrichment := (event.enrichment.map Enrichment.modelDump).getD []

/-- The decision `TransactionProcessor.process` makes from a score. -/
def transactionDecision (event : TransactionCreatedV1) (ruleSet : RuleSet) (score : Score) : TransactionDecision where
  transactionId := event.transactionId
  userId := event.userId
  amount := event.amount
  currency := event.currency
  category := event.category
  occurredAt := event.occurredAt
  riskScore := score.assessment.riskScore
  verdict := score.assessment.verdict
  isFraud := score.assessment.isFraud
  triggeredRules := score.assessment.triggeredRules
  rulesVersion := ruleSetLabel ruleSet.key ruleSet.version
  rulesHash := ruleSet.contentHash
  correlationId := event.correlationId
  channel := event.channel
  country := event.country
  enrichment := event.enrichment

/-- `EvaluateRequest`: a hypothetical transaction. -/
structure EvaluateRequest where
  userId : Uuid
  amount : Money
  currency : String
  category : String
  occurredAt : Option AwareDatetime
  channel : Option String
  country : Option String
  enrichment : Option Enrichment
  transactionId : Option Uuid

/-- What the evaluate endpoint scores. `now` is the time of the request. -/
def ScoreInput.ofRequest (request : EvaluateRequest) (now : AwareDatetime) : ScoreInput where
  transactionId := request.transactionId
  userId := request.userId
  wall := (request.occurredAt.getD now).wall
  offset := (request.occurredAt.getD now).offset
  amount := request.amount
  currency := request.currency
  category := request.category
  channel := request.channel
  country := request.country
  enrichment := (request.enrichment.map Enrichment.modelDump).getD []

end FraudDetection
