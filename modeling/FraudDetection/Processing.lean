import FraudDetection.Traceability
import FraudDetection.Worker

/-!
# Processing a log

What processing the messages of a partition comes to, once and in order; and what any number of owners do to the same tables when they
start from committed offsets, are stopped or killed at any point, and go on with a partition that another one has taken over.
An owner is the task of a partition: it handles the messages in the order of their offsets, and `process` of a message is a velocity
query and a call of `record_decision`, each of which sees the rows that are committed by then.
-/

namespace FraudDetection

/-! ## The log -/

/-- What identifies the transaction of an event. -/
def TransactionCreatedV1.data (event : TransactionCreatedV1) : TransactionData :=
  ⟨event.transactionId, event.userId, event.amount.units, event.currency, event.category, event.occurredAt⟩

/-- The messages of every partition, in the order of their offsets. Events of one user, or of one transaction, are on one partition. -/
structure PartitionedLog (reader : EventReader) (levels : ℕ) where
  messages : TopicPartition → List Message
  placed : ∀ key, ∀ m ∈ messages key, m.topicPartition = key
  ordered : ∀ key, (messages key).Pairwise fun m m' => m.offset < m'.offset
  apart : ∀ key key' m m' event event', m ∈ messages key → m' ∈ messages key' →
    parseTransactionEvent reader levels m.value = .ok event → parseTransactionEvent reader levels m'.value = .ok event' →
    event.userId = event'.userId ∨ event.transactionId = event'.transactionId → key = key'

variable {reader : EventReader} {levels : ℕ}

/-- The transaction at a position, if there is one. -/
def PartitionedLog.data (log : PartitionedLog reader levels) (position : Position) : TransactionData :=
  match (log.messages (position.1, position.2.1)).find? (fun m => decide (m.offset = position.2.2)) with
  | none => ⟨⟨0⟩, ⟨0⟩, 0, "", "", 0⟩
  | some message =>
    match parseTransactionEvent reader levels message.value with
    | .error _ => ⟨⟨0⟩, ⟨0⟩, 0, "", "", 0⟩
    | .ok event => event.data

/-! ## Without failures -/

/-- `process`, alone: the rows of `transactions` after a message. -/
def processOnce (reader : EventReader) (levels : ℕ) (ruleSet : RuleSet) (rows : List TransactionRecord) (message : Message) :
    List TransactionRecord :=
  match parseTransactionEvent reader levels message.value with
  | .error _ => rows
  | .ok event =>
    match scoreTransaction rows ruleSet.definition (.ofEvent event) with
    | .error _ => rows
    | .ok score =>
      if ∃ row ∈ rows, row.transactionId = event.transactionId then rows
      else rows ++ [transactionRecord (transactionDecision event ruleSet score) 0]

/-- The rows after some messages, in order. -/
def processAll (reader : EventReader) (levels : ℕ) (ruleSet : RuleSet) (messages : List Message) : List TransactionRecord :=
  messages.foldl (processOnce reader levels ruleSet) []

/-! ## Owners -/

/-- Where `process` is. -/
inductive ProcessPhase where
  | parsing
  /-- The event is parsed, and its velocity is still to be queried. -/
  | scoring (event : TransactionCreatedV1)
  /-- `record_decision` is called. -/
  | recording (call : ℕ)

/-- The task of a partition. -/
structure Owner where
  partition : TopicPartition
  /-- How many messages of the log come before the one it is at. -/
  position : ℕ
  stopping : Bool
  /-- `_handle` of that message, and `process` where it waits for it. -/
  handling : Option (Handling × ProcessPhase)

/-- The message it is at. -/
def Owner.message (log : PartitionedLog reader levels) (o : Owner) : Option Message := (log.messages o.partition)[o.position]?

/-- Something happens to `_handle`. -/
def Owner.advance (settings : WorkerSettings) (o : Owner) (message : Message) (h : Handling) (event : HandlingEvent) :
    Option Owner :=
  (h.step settings message o.stopping event).map fun h => { o with handling := some (h, .parsing) }

/-- What `record_decision` raises: of its errors, only the conflicting duplicate is a permanent one. -/
def RecordError.raises (raised : RecordError) (error : PyException) : Bool :=
  match raised with
  | .conflictingDuplicate => decide (error = .error .conflictingDuplicateError)
  | _ => decide (classifyFailure error ≠ .permanent)

/-- The tables, the owners, and the committed offsets, as numbers of messages. The code keeps no `scorings`, those of each call of
`record_decision`. -/
structure ProcessingState where
  decisions : DecisionsState
  owners : ℕ → Option Owner
  committed : TopicPartition → ℕ
  scorings : ℕ → Option Scoring

/-- A step of an owner. -/
inductive OwnerEvent where
  /-- It takes the next message. -/
  | take
  | parse (correlationId : Option String) (random : Random)
  /-- The rule set, the velocity or the score cannot be had. -/
  | fail (error : PyException) (correlationId : Option String) (random : Random)
  /-- The event is scored, and `record_decision` is called. -/
  | score (call : ℕ)
  /-- `record_decision` has ended, and if it raises, this is what. -/
  | finish (error : PyException) (correlationId : Option String) (random : Random)
  | published (result : CallResult) (random : Random)
  | wake
  /-- `_handle` has ended. -/
  | handled
  | stop
  /-- The offset it has stored is committed. -/
  | commitOffset

/-- What happens. -/
inductive ProcessingEvent where
  /-- An owner starts from the committed offset. -/
  | own (owner : ℕ) (partition : TopicPartition)
  | owner (owner : ℕ) (event : OwnerEvent)
  /-- A statement of a call of `record_decision`, or its outcome. -/
  | record (event : RecordEvent)
  /-- An owner is cancelled or killed, whatever it is at. -/
  | crash (owner : ℕ)

namespace ProcessingState

/-- The rows of `transactions`. -/
def rows (s : ProcessingState) : List TransactionRecord := s.decisions.transactions.rows.map (·.record)

/-- The rows that come from a partition. -/
def rowsOf (s : ProcessingState) (key : TopicPartition) : List StoredDecision :=
  s.decisions.transactions.rows.filter fun t => (t.source.topic, t.source.partition) = key

/-- An owner goes on. -/
def setOwner (s : ProcessingState) (i : ℕ) (o : Owner) : ProcessingState :=
  { s with owners := Function.update s.owners i (some o) }

/-- No message that is being handled has failed with an unexpected error. -/
def Expected (s : ProcessingState) : Prop :=
  ∀ i o h phase, s.owners i = some o → o.handling = some (h, phase) → h.unexpectedFailures = 0

/-- Before anything. -/
def empty : ProcessingState := ⟨.empty, fun _ => none, fun _ => 0, fun _ => none⟩

end ProcessingState

/-- What a step of an owner does. -/
def ownerStep (settings : WorkerSettings) (ruleSet : RuleSet) (log : PartitionedLog reader levels) (s : ProcessingState) (i : ℕ)
    (o : Owner) : OwnerEvent → Option ProcessingState
  | .take =>
    match o.handling, o.message log with
    | none, some _ =>
      if o.stopping then none else some (s.setOwner i { o with handling := some (.enter o.stopping, .parsing) })
    | _, _ => none
  | .parse correlationId random =>
    match o.handling, o.message log with
    | some (h, .parsing), some message =>
      match h.phase with
      | .processing =>
        match parseTransactionEvent reader levels message.value with
        | .error e =>
          (o.advance settings message h (.processed (.error e.toPyException) correlationId random)).map (s.setOwner i)
        | .ok event => some (s.setOwner i { o with handling := some (h, .scoring event) })
      | _ => none
    | _, _ => none
  | .fail error correlationId random =>
    match o.handling, o.message log with
    | some (h, .scoring _), some message =>
      if classifyFailure error = .permanent then none
      else (o.advance settings message h (.processed (.error error) correlationId random)).map (s.setOwner i)
    | _, _ => none
  | .score call =>
    match o.handling, o.message log with
    | some (h, .scoring event), some message =>
      match scoreTransaction s.rows ruleSet.definition (.ofEvent event) with
      | .error _ => none
      | .ok score =>
        let scoring : Scoring := ⟨event, ruleSet, s.rows, score⟩
        (recordStep log.data s.decisions (.begin call ⟨scoring.decision, message.provenance⟩)).map fun decisions =>
          { s.setOwner i { o with handling := some (h, .recording call) } with
            decisions := decisions
            scorings := Function.update s.scorings call (some scoring) }
    | _, _ => none
  | .finish error correlationId random =>
    match o.handling, o.message log with
    | some (h, .recording call), some message =>
      match s.decisions.phase call with
      | .returned _ _ => (o.advance settings message h (.processed (.ok ()) correlationId random)).map (s.setOwner i)
      | .raised _ raised =>
        if raised.raises error then
          (o.advance settings message h (.processed (.error error) correlationId random)).map (s.setOwner i)
        else none
      | _ => none
    | _, _ => none
  | .published result random =>
    match o.handling, o.message log with
    | some (h, _), some message => (o.advance settings message h (.published result random)).map (s.setOwner i)
    | _, _ => none
  | .wake =>
    match o.handling, o.message log with
    | some (h, _), some message => (o.advance settings message h .wake).map (s.setOwner i)
    | _, _ => none
  | .handled =>
    match o.handling with
    | some (h, _) =>
      match h.phase with
      | .returned true => some (s.setOwner i { o with position := o.position + 1, handling := none })
      | .returned false => some (s.setOwner i { o with handling := none })
      | _ => none
    | none => none
  | .stop => some (s.setOwner i { o with stopping := true })
  | .commitOffset => some { s with committed := Function.update s.committed o.partition o.position }

/-- What a step does. -/
def processingStep (settings : WorkerSettings) (ruleSet : RuleSet) (log : PartitionedLog reader levels) (s : ProcessingState) :
    ProcessingEvent → Option ProcessingState
  | .own i key =>
    match s.owners i with
    | some _ => none
    | none => some (s.setOwner i ⟨key, s.committed key, false, none⟩)
  | .owner i event =>
    match s.owners i with
    | none => none
    | some o => ownerStep settings ruleSet log s i o event
  | .record event =>
    if event.begins then none
    else (recordStep log.data s.decisions event).map fun decisions => { s with decisions := decisions }
  | .crash i => some { s with owners := Function.update s.owners i none }

/-- Any number of owners, with one version of the rule set. -/
def processing (settings : WorkerSettings) (ruleSet : RuleSet) (log : PartitionedLog reader levels) :
    StepSystem ProcessingState ProcessingEvent where
  start s := s = .empty
  step := processingStep settings ruleSet log

end FraudDetection
