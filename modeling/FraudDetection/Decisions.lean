import FraudDetection.Versions

/-!
# Recorded decisions

The `transactions` and `transaction_history` tables and `record_decision`, the only writer of both. A call is one database
transaction of two or three statements, each of which sees what was committed before it started. Any number of calls run at
once, so they are a system in which each statement is a step.
-/

namespace FraudDetection

/-! ## The tables -/

/-- `RecordOutcome`: whether this message produced the stored decision or repeated an earlier one. -/
inductive RecordOutcome where
  | evaluated | duplicate
  deriving DecidableEq, Repr

/-- `TransactionDecision`: a scored transaction, as stored in `transactions`. -/
structure TransactionDecision where
  transactionId : Uuid
  userId : Uuid
  amount : Money
  currency : String
  category : String
  occurredAt : Timestamp
  riskScore : ℕ
  verdict : Verdict
  isFraud : Bool
  triggeredRules : List String
  rulesVersion : String
  rulesHash : String
  correlationId : Option String
  channel : Option String
  country : Option String
  enrichment : Option Enrichment
  deriving DecidableEq, Repr

/-- `MessageProvenance`: where a message came from in Kafka. -/
structure MessageProvenance where
  topic : String
  partition : ℕ
  offset : ℕ
  timestampMs : Option ℤ
  deriving DecidableEq, Repr

/-- A position in Kafka: topic, partition and offset. -/
abbrev Position := String × ℕ × ℕ

def MessageProvenance.position (p : MessageProvenance) : Position := (p.topic, p.partition, p.offset)

/-- `RecordResult`. -/
structure RecordResult where
  outcome : RecordOutcome
  decision : TransactionDecision
  deriving DecidableEq, Repr

/-- A row of `transactions`: a column for each field of a decision, and when it was made. -/
structure TransactionRecord extends TransactionDecision where
  createdAt : Timestamp
  deriving DecidableEq, Repr

/-- A row of `transaction_history`. -/
structure TransactionHistoryRecord where
  transactionId : Uuid
  outcome : RecordOutcome
  userId : Uuid
  amount : Money
  currency : String
  category : String
  occurredAt : Timestamp
  riskScore : ℕ
  verdict : Verdict
  isFraud : Bool
  triggeredRules : List String
  rulesVersion : String
  rulesHash : String
  sourceTopic : String
  sourcePartition : ℕ
  sourceOffset : ℕ
  sourceTimestamp : Option ℤ
  correlationId : Option String
  deriving DecidableEq, Repr

/-- The source columns of a history row, which are unique together. -/
def TransactionHistoryRecord.position (h : TransactionHistoryRecord) : Position :=
  (h.sourceTopic, h.sourcePartition, h.sourceOffset)

/-- `_decision_from_record`. -/
def decisionFromRecord (record : TransactionRecord) : TransactionDecision := record.toTransactionDecision

/-- The row a decision becomes at a time. The amount takes the two decimal places of its column. -/
def transactionRecord (decision : TransactionDecision) (now : Timestamp) : TransactionRecord :=
  { decision with amount := decision.amount.stored, createdAt := now }

/-- `_same_transaction`: the two describe the same transaction. Scores are not compared. -/
def sameTransaction (left right : TransactionDecision) : Bool :=
  decide (left.userId = right.userId) && left.amount.value.eqv right.amount.value &&
    decide (left.currency = right.currency) && decide (left.category = right.category) &&
    decide (left.occurredAt = right.occurredAt)

/-- `_history_values`, as the columns hold them. -/
def historyValues (decision : TransactionDecision) (provenance : MessageProvenance) (outcome : RecordOutcome)
    (correlationId : Option String) : TransactionHistoryRecord where
  transactionId := decision.transactionId
  outcome := outcome
  userId := decision.userId
  amount := decision.amount.stored
  currency := decision.currency
  category := decision.category
  occurredAt := decision.occurredAt
  riskScore := decision.riskScore
  verdict := decision.verdict
  isFraud := decision.isFraud
  triggeredRules := decision.triggeredRules
  rulesVersion := decision.rulesVersion
  rulesHash := decision.rulesHash
  sourceTopic := provenance.topic
  sourcePartition := provenance.partition
  sourceOffset := provenance.offset
  sourceTimestamp := provenance.timestampMs
  correlationId := correlationId

/-- PostgreSQL takes the row of the decision: its texts fit their columns and its checks hold. Identifiers, times and amounts
always fit, and a positive amount passes its check. -/
def TransactionDecision.fits (d : TransactionDecision) : Bool :=
  fitsColumn 3 d.currency && fitsColumn 64 d.category && d.channel.all (fitsColumn 32) && d.country.all (fitsColumn 2) &&
    d.triggeredRules.all Jsonb.storable && fitsColumn 128 d.rulesVersion && fitsColumn 64 d.rulesHash &&
    d.correlationId.all (fitsColumn 128) && decide (d.riskScore ≤ 2147483647) &&
    d.isFraud == decide (d.verdict ≠ .approved)

/-- PostgreSQL takes the source columns. -/
def MessageProvenance.fits (p : MessageProvenance) : Bool :=
  fitsColumn 255 p.topic && decide (p.partition ≤ 2147483647) && decide (p.offset ≤ 9223372036854775807) &&
    p.timestampMs.all fun t => decide (-9223372036854775808 ≤ t ∧ t ≤ 9223372036854775807)

/-! ## Calls -/

/-- The arguments of `record_decision`. -/
structure RecordCall where
  decision : TransactionDecision
  provenance : MessageProvenance
  deriving DecidableEq, Repr

/-- What a call can raise. -/
inductive RecordError where
  | conflictingDuplicate
  /-- The database could not be reached or lost the transaction, which may still have been committed. -/
  | outage
  /-- PostgreSQL does not take a row. -/
  | refused
  /-- The stored row was not found: `None` has no columns. -/
  | attributeError
  deriving DecidableEq, Repr

def RecordError.message : RecordError → Option String
  | .conflictingDuplicate =>
    some "transaction_id already recorded with different user, amount, currency, category or occurred_at"
  | _ => none

/-- Where a call is. -/
inductive RecordPhase where
  | absent
  | called (call : RecordCall)
  /-- Its insert into `transactions` did nothing. -/
  | present (call : RecordCall)
  /-- It knows its result, and its history row is next. -/
  | decided (call : RecordCall) (result : RecordResult)
  /-- Its last statement has run, and its commit is next. -/
  | written (call : RecordCall) (result : RecordResult)
  | returned (call : RecordCall) (result : RecordResult)
  | raised (call : RecordCall) (error : RecordError)

/-- A row of `transactions`, with the call that inserted it and the message of that call. The table has no such columns. -/
structure StoredDecision where
  record : TransactionRecord
  call : ℕ
  source : MessageProvenance

/-- The primary key of `transactions`. -/
def StoredDecision.key (t : StoredDecision) : Uuid := t.record.transactionId

/-- A row of `transaction_history`, with the call that inserted it. The table has no such column. -/
structure StoredHistory where
  record : TransactionHistoryRecord
  call : ℕ

/-- `uq_transaction_history_source`. -/
def StoredHistory.key (h : StoredHistory) : Position := h.record.position

/-- The tables and the calls. -/
structure DecisionsState where
  transactions : UniqueTable StoredDecision
  history : UniqueTable StoredHistory
  phase : ℕ → RecordPhase

/-- A statement or an outcome of one call. -/
inductive RecordEvent where
  | begin (call : ℕ) (arguments : RecordCall)
  | insertDecision (call : ℕ) (now : Timestamp)
  | selectExisting (call : ℕ)
  | insertHistory (call : ℕ)
  /-- The commit; it may happen without the call hearing of it. -/
  | commit (call : ℕ) (acknowledged : Bool)
  /-- The database fails the call, and rolls its transaction back. -/
  | fail (call : ℕ)

namespace DecisionsState

/-- A call goes on to a phase. -/
def setPhase (s : DecisionsState) (i : ℕ) (phase : RecordPhase) : DecisionsState :=
  ⟨s.transactions, s.history, Function.update s.phase i phase⟩

/-- A call inserts into `transactions` and goes on. -/
def withTransactions (s : DecisionsState) (table : UniqueTable StoredDecision) (i : ℕ) (phase : RecordPhase) :
    DecisionsState :=
  ⟨table, s.history, Function.update s.phase i phase⟩

/-- A call inserts into `transaction_history` and goes on. -/
def withHistory (s : DecisionsState) (table : UniqueTable StoredHistory) (i : ℕ) (phase : RecordPhase) : DecisionsState :=
  ⟨s.transactions, table, Function.update s.phase i phase⟩

/-- An exception leaves the block of a call, which rolls its transaction back. -/
def raise (s : DecisionsState) (i : ℕ) (call : RecordCall) (error : RecordError) : DecisionsState :=
  ⟨s.transactions.rollback i, s.history.rollback i, Function.update s.phase i (.raised call error)⟩

/-- A call commits what it has inserted. -/
def commit (s : DecisionsState) (i : ℕ) (phase : RecordPhase) : DecisionsState :=
  ⟨s.transactions.commit i, s.history.commit i, Function.update s.phase i phase⟩

/-- The stored decision of a transaction. -/
def find (s : DecisionsState) (id : Uuid) : Option StoredDecision :=
  s.transactions.rows.find? fun t => decide (t.record.transactionId = id)

end DecisionsState

/-- What makes two messages carry the same transaction. The amount is in hundredths. -/
structure TransactionData where
  transactionId : Uuid
  userId : Uuid
  amount : ℕ
  currency : String
  category : String
  occurredAt : Timestamp
  deriving DecidableEq, Repr

def TransactionDecision.data (d : TransactionDecision) : TransactionData :=
  ⟨d.transactionId, d.userId, d.amount.units, d.currency, d.category, d.occurredAt⟩

/-- What a step of a call of `record_decision` does. `data` gives the transaction at every Kafka position. -/
def recordStep (data : Position → TransactionData) (s : DecisionsState) : RecordEvent → Option DecisionsState
  | .begin i call =>
    match s.phase i with
    | .absent => if call.decision.data = data call.provenance.position then some (s.setPhase i (.called call)) else none
    | _ => none
  | .insertDecision i now =>
    match s.phase i with
    | .called call =>
      if call.decision.fits then
        match s.transactions.insert StoredDecision.key i ⟨transactionRecord call.decision now, i, call.provenance⟩ with
        | .blocked => none
        | .conflict => some (s.setPhase i (.present call))
        | .inserted table => some (s.withTransactions table i (.decided call ⟨.evaluated, call.decision⟩))
      else some (s.raise i call .refused)
    | _ => none
  | .selectExisting i =>
    match s.phase i with
    | .present call =>
      match s.find call.decision.transactionId with
      | none => some (s.raise i call .attributeError)
      | some existing =>
        let stored := decisionFromRecord existing.record
        if sameTransaction stored call.decision then some (s.setPhase i (.decided call ⟨.duplicate, stored⟩))
        else some (s.raise i call .conflictingDuplicate)
    | _ => none
  | .insertHistory i =>
    match s.phase i with
    | .decided call result =>
      if call.provenance.fits then
        let row : StoredHistory :=
          ⟨historyValues result.decision call.provenance result.outcome call.decision.correlationId, i⟩
        match s.history.insert StoredHistory.key i row with
        | .blocked => none
        | .conflict => some (s.setPhase i (.written call result))
        | .inserted table => some (s.withHistory table i (.written call result))
      else some (s.raise i call .refused)
    | _ => none
  | .commit i acknowledged =>
    match s.phase i with
    | .written call result =>
      some (s.commit i (if acknowledged then .returned call result else .raised call .outage))
    | _ => none
  | .fail i =>
    match s.phase i with
    | .called call | .present call | .decided call _ | .written call _ => some (s.raise i call .outage)
    | _ => none

/-- Empty tables, before any call. -/
def DecisionsState.empty : DecisionsState := ⟨.ofRows [], .ofRows [], fun _ => .absent⟩

/-- Concurrent calls of `record_decision` on tables that only they write. -/
def decisions (data : Position → TransactionData) : StepSystem DecisionsState RecordEvent where
  start s := s = .empty
  step := recordStep data

end FraudDetection
