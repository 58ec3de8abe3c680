import FraudDetection.Handling

/-!
# Publishing a dead letter

`DeadLetterPublisher.publish`: it produces a record, waits in `flush`, and then waits for a future that the delivery callback of that
very record settles. What becomes of a record is up to the broker: `on_delivery` is called for it once, or never.
-/

namespace FraudDetection

/-- What `on_delivery` is called with. -/
inductive DeliveryReport where
  /-- No error: the broker has stored the record. -/
  | stored
  | failed (error : String)
  deriving DecidableEq, Repr

/-- The producer: the records it has taken, and what has been reported of each of them. -/
structure Producer where
  records : List DeadLetter
  reports : ℕ → Option DeliveryReport

/-- Before any record. -/
def Producer.empty : Producer := ⟨[], fun _ => none⟩

namespace Producer

/-- `produce`: the record is taken. -/
def produce (producer : Producer) (letter : DeadLetter) : Producer := { producer with records := producer.records ++ [letter] }

/-- `on_delivery` is called for a record. -/
def report (producer : Producer) (record : ℕ) (report : DeliveryReport) : Option Producer :=
  if record < producer.records.length ∧ producer.reports record = none then
    some { producer with reports := Function.update producer.reports record (some report) }
  else none

end Producer

/-- What `produce` can raise. -/
inductive ProduceError where
  /-- The producer's queue is full. -/
  | bufferError
  | other (error : PyException)
  deriving DecidableEq, Repr

/-- What `publish` raises then. -/
def ProduceError.raised : ProduceError → PyException
  | .bufferError => .error .transientError
  | .other error => error

/-- A call of `publish` whose record has been produced. -/
structure Publication where
  letter : DeadLetter
  record : ℕ
  /-- `flush` has returned. -/
  flushed : Bool
  /-- The future `delivered`. -/
  delivered : Option DeliveryReport

/-- A call of `publish`, once its record is taken. -/
def Producer.publication (producer : Producer) (letter : DeadLetter) : Publication :=
  ⟨letter, producer.records.length, false, none⟩

/-- What happens to the call. -/
inductive PublicationEvent where
  /-- The loop runs the `settle` that `on_delivery` has scheduled. -/
  | settle
  | flushed
  /-- `wait_for` finds the future done. -/
  | delivered
  /-- `wait_for` gives up after a second. -/
  | timeout
  deriving DecidableEq, Repr

/-- `publish` from one await to the next: it is still waiting, or it has ended. -/
def Publication.step (producer : Producer) (p : Publication) : PublicationEvent → Option (Publication ⊕ CallResult)
  | .settle =>
    match p.delivered, producer.reports p.record with
    | none, some report => some (.inl { p with delivered := some report })
    | _, _ => none
  | .flushed => if p.flushed then none else some (.inl { p with flushed := true })
  | .delivered =>
    if p.flushed then
      p.delivered.map fun report =>
        .inr (match report with
          | .stored => .ok ()
          | .failed _ => .error (.error .transientError))
    else none
  | .timeout => if p.flushed ∧ p.delivered = none then some (.inr (.error (.error .transientError))) else none

end FraudDetection
