import FraudDetection.Lib.Simulation
import FraudDetection.Paging
import FraudDetection.Scoring

/-!
# The store of decisions

`record_decision` runs beside the queries of `transactions` that are one statement: `get_transaction`, `get_velocity_aggregates` and
`list_transactions`. What the two tables are for is said by a store whose requests are answered one at a time.
-/

namespace FraudDetection

/-! ## Queries -/

/-- `get_transaction`: the stored decision of a transaction. -/
def getTransaction (rows : List TransactionRecord) (transactionId : Uuid) : Option TransactionRecord :=
  rows.find? fun row => decide (row.transactionId = transactionId)

/-- A query of `transactions`, with its arguments. -/
inductive Query where
  | transaction (transactionId : Uuid)
  | velocity (userId : Uuid) (windowStart windowEnd : Timestamp) (excludeTransactionId : Uuid) (currency : String)
  | page (filters : TransactionFilters) (limit : ℤ) (cursor : Option PageCursor)

/-- What a query returns or raises. -/
inductive Selected where
  | transaction (record : Option TransactionRecord)
  | velocity (velocity : Option (ℕ × Decimal))
  | page (page : Except ListError (List TransactionRecord × Option PageCursor))

/-- The one statement of a query, on the rows it sees. -/
def Query.select (naive : NaiveTimes) (rows : List TransactionRecord) : Query → Selected
  | .transaction transactionId => .transaction (getTransaction rows transactionId)
  | .velocity userId windowStart windowEnd excludeTransactionId currency =>
    .velocity (getVelocityAggregates rows userId windowStart windowEnd excludeTransactionId currency)
  | .page filters limit cursor => .page (listTransactions naive rows filters limit cursor)

/-! ## Calls of the database -/

/-- Where a query is. -/
inductive QueryPhase where
  | absent
  | called (query : Query)
  | returned (query : Query) (selected : Selected)
  | failed (query : Query)

/-- The tables, the calls of `record_decision` and the queries. -/
structure DatabaseState where
  decisions : DecisionsState
  queries : ℕ → QueryPhase

/-- The committed rows of `transactions`, as the table holds them. -/
def DatabaseState.rows (s : DatabaseState) : List TransactionRecord := s.decisions.transactions.rows.map (·.record)

/-- The committed rows of `transaction_history`, as the table holds them. -/
def DatabaseState.audit (s : DatabaseState) : List TransactionHistoryRecord := s.decisions.history.rows.map (·.record)

/-- A step of one call. -/
inductive DatabaseEvent where
  | record (event : RecordEvent)
  | query (reader : ℕ) (query : Query)
  | select (reader : ℕ)
  /-- The database fails a query. -/
  | failQuery (reader : ℕ)

/-- What a step of one call does. -/
def databaseStep (naive : NaiveTimes) (data : Position → TransactionData) (s : DatabaseState) : DatabaseEvent → Option DatabaseState
  | .record event => (recordStep data s.decisions event).map fun decisions => ⟨decisions, s.queries⟩
  | .query i query =>
    match s.queries i with
    | .absent => some ⟨s.decisions, Function.update s.queries i (.called query)⟩
    | _ => none
  | .select i =>
    match s.queries i with
    | .called query => some ⟨s.decisions, Function.update s.queries i (.returned query (query.select naive s.rows))⟩
    | _ => none
  | .failQuery i =>
    match s.queries i with
    | .called query => some ⟨s.decisions, Function.update s.queries i (.failed query)⟩
    | _ => none

/-- Concurrent calls on tables that only `record_decision` writes, empty at first. -/
def database (naive : NaiveTimes) (data : Position → TransactionData) : StepSystem DatabaseState DatabaseEvent where
  start s := s = ⟨.empty, fun _ => .absent⟩
  step := databaseStep naive data

/-! ## What the tables are for -/

/-- Decisions that never change, in the order in which they were made, and the trail of the messages that led to them. -/
structure DecisionStore where
  decisions : List TransactionRecord
  trail : List TransactionHistoryRecord

/-- A request to the store. A decision is stored at a time the database takes. -/
inductive StoreRequest where
  | record (call : RecordCall) (now : Timestamp)
  | query (query : Query)

/-- What the store answers. -/
inductive StoreAnswer where
  | recorded (result : Except RecordError RecordResult)
  | selected (selected : Selected)

/-- Note in the trail what a message came to, unless the trail has its position. -/
def DecisionStore.note (store : DecisionStore) (call : RecordCall) (result : RecordResult) : List TransactionHistoryRecord :=
  if ∃ row ∈ store.trail, row.position = call.provenance.position then store.trail
  else store.trail ++ [historyValues result.decision call.provenance result.outcome call.decision.correlationId]

/-- Decide a transaction: the first decision stands, and a later one for other data is refused. -/
def DecisionStore.decide (store : DecisionStore) (call : RecordCall) (now : Timestamp) :
    DecisionStore × Except RecordError RecordResult :=
  match getTransaction store.decisions call.decision.transactionId with
  | none =>
    let result : RecordResult := ⟨.evaluated, call.decision⟩
    (⟨store.decisions ++ [transactionRecord call.decision now], store.note call result⟩, .ok result)
  | some existing =>
    if sameTransaction (decisionFromRecord existing) call.decision then
      let result : RecordResult := ⟨.duplicate, decisionFromRecord existing⟩
      (⟨store.decisions, store.note call result⟩, .ok result)
    else (store, .error .conflictingDuplicate)

/-- The store, empty at first. -/
def decisionStore (naive : NaiveTimes) : StepSystem.AtomicObject DecisionStore StoreRequest StoreAnswer where
  initial := ⟨[], []⟩
  apply store
    | .record call now => ((store.decide call now).1, .recorded (store.decide call now).2)
    | .query query => (store, .selected (query.select naive store.decisions))

/-! ## Which step of a call is its effect -/

/-- A call: of `record_decision`, or a query. -/
abbrev CallId := ℕ ⊕ ℕ

/-- When a call's own row was made. A call that found its decision stored has none, and its time does not matter. -/
def DecisionsState.madeAt (s : DecisionsState) (i : ℕ) : Timestamp :=
  match s.transactions.own i with
  | t :: _ => t.record.createdAt
  | [] => 0

/-- What a step does to the store. A call takes effect when it commits, or when it finds another decision; a query when its statement
runs. -/
def storeEvents (s : DatabaseState) : DatabaseEvent → List (CallId × StoreRequest)
  | .record (.commit i _) =>
    match s.decisions.phase i with
    | .written call _ => [(.inl i, .record call (s.decisions.madeAt i))]
    | _ => []
  | .record (.selectExisting i) =>
    match s.decisions.phase i with
    | .present call =>
      match s.decisions.find call.decision.transactionId with
      | some existing =>
        if sameTransaction (decisionFromRecord existing.record) call.decision then []
        else [(.inl i, .record call (s.decisions.madeAt i))]
      | none => []
    | _ => []
  | .select j =>
    match s.queries j with
    | .called query => [(.inr j, .query query)]
    | _ => []
  | _ => []

/-- The effects of a run, in order. -/
def effectOrder (naive : NaiveTimes) (data : Position → TransactionData) :
    DatabaseState → List DatabaseEvent → List (CallId × StoreRequest) :=
  (database naive data).emitted storeEvents

/-- What the caller of an effect asked for, and was told. -/
inductive Answered where
  | recorded (call : RecordCall) (result : Except RecordError RecordResult)
  | selected (query : Query) (selected : Selected)

/-- What the caller sees of an effect: not the time at which the database stored a decision. -/
def callerSees : StoreRequest → StoreAnswer → Option Answered
  | .record call _, .recorded result => some (.recorded call result)
  | .query query, .selected selected => some (.selected query selected)
  | _, _ => none

/-- What a call has returned or raised, when that says what became of it. A lost connection does not. -/
def DatabaseState.answered (s : DatabaseState) : CallId → Option (Option Answered)
  | .inl i =>
    match s.decisions.phase i with
    | .returned call result => some (some (.recorded call (.ok result)))
    | .raised call .conflictingDuplicate => some (some (.recorded call (.error .conflictingDuplicate)))
    | _ => none
  | .inr j =>
    match s.queries j with
    | .returned query selected => some (some (.selected query selected))
    | _ => none

/-- A call that may have taken effect: it was answered, or its connection was lost. -/
def DatabaseState.MayHaveEffect (s : DatabaseState) : CallId → Prop
  | .inl i =>
    match s.decisions.phase i with
    | .returned _ _ | .raised _ .conflictingDuplicate | .raised _ .outage => True
    | _ => False
  | .inr j =>
    match s.queries j with
    | .returned _ _ => True
    | _ => False

end FraudDetection
