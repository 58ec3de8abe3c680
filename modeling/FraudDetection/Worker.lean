import FraudDetection.DeadLetters

/-!
# The worker

`FraudWorker`: one loop that polls and dispatches, one task for each assigned partition that handles its messages in order, and
librdkafka, which assigns and takes away partitions while the loop is in `poll` and commits the offsets that are stored. Between two
awaits a task runs undisturbed, and tasks, the loop and the broker take turns in any order.
-/

namespace FraudDetection

/-! ## Partitions -/

/-- A partition of a topic. -/
abbrev TopicPartition := String × ℕ

/-- The partition of a message. -/
def Message.topicPartition (message : Message) : TopicPartition := (message.topic, message.partition)

/-- Where the task of a partition is. -/
inductive TaskPhase where
  /-- It has not run yet. -/
  | created
  /-- `await state.queue.get()`. -/
  | getting
  /-- `await self._handle(state, message)`, and the call of `publish` that it waits for. -/
  | handling (message : Message) (handling : Handling) (publication : Option Publication)
  | ended

/-- `_PartitionState`. The `None` of the queue is `none`. -/
structure PartitionState where
  queue : List (Option Message)
  stopping : Bool
  task : TaskPhase
  paused : Bool

namespace PartitionState

/-- A partition that is newly assigned. -/
def new : PartitionState := ⟨[], false, .created, false⟩

/-- It is told to stop: its queue is emptied, and an idle task is woken. -/
def stop (p : PartitionState) : PartitionState := { p with queue := [none], stopping := true }

/-- `while not state.stopping.is_set()`. -/
def loopHead (p : PartitionState) : PartitionState := { p with task := if p.stopping then .ended else .getting }

/-- Its task is done. -/
def finished (p : PartitionState) : Bool :=
  match p.task with
  | .ended => true
  | _ => false

end PartitionState

/-- What the consumer knows of a partition while it is assigned. It keeps no lists of what it has `delivered` and what was stored,
only the last of either. -/
structure Assignment where
  /-- Where it reads next. -/
  position : ℕ
  paused : Bool
  delivered : List Message
  storedOffsets : List ℕ

/-- The offset that a commit sends, if one is stored. -/
def Assignment.stored (a : Assignment) : Option ℕ := a.storedOffsets.getLast?

/-! ## The worker and its consumer -/

/-- Where `run` is. -/
inductive RunPhase where
  /-- In `poll`. -/
  | polling
  /-- In `poll`, in the callback that takes partitions away. -/
  | releasing (partitions : List TopicPartition) (lost : Bool)
  | dispatching (message : Message)
  /-- In `_shutdown`. -/
  | draining
  | closed

/-- The worker, its consumer and its producer. `processed` and `published` say which calls have returned; the code keeps no such
lists. -/
structure WorkerState where
  running : Bool
  phase : RunPhase
  /-- `_partitions`, and its keys. -/
  partitions : TopicPartition → Option PartitionState
  held : List TopicPartition
  assigned : TopicPartition → Option Assignment
  /-- The group's committed offsets; 0, the earliest, when there is none. -/
  committed : TopicPartition → ℕ
  producer : Producer
  /-- The messages for which `handler.process` has returned. -/
  processed : List Message
  /-- The letters for which `publish` has returned, with their records. -/
  published : List (DeadLetter × ℕ)

/-- A step of the task of a partition. -/
inductive TaskEvent where
  /-- It runs for the first time. -/
  | begin
  | get
  /-- `handler.process` ends, with this correlation id bound; the random number is that of a retry's delay. -/
  | processed (result : CallResult) (correlationId : Option String) (random : Random)
  /-- The wait before a retry ends. -/
  | wake
  /-- `publish` begins, and `produce` may raise. -/
  | produce (error : Option ProduceError) (random : Random)
  | publication (event : PublicationEvent) (random : Random)
  /-- `_handle` has ended, and `store_offsets` may raise. -/
  | finish (storeFails : Bool)
  /-- It has been waited for long enough, and is cancelled. -/
  | cancel

/-- What happens. -/
inductive WorkerEvent where
  /-- `stop` is called. -/
  | stop
  /-- `poll` returns a message. -/
  | poll (message : Message)
  /-- `poll` returns nothing, or an error that is not fatal. -/
  | pollNothing
  /-- `poll` fails, or the worker has been outside its group for too long. -/
  | pollFails
  | dispatch
  /-- A partition is assigned. -/
  | assign (partition : TopicPartition)
  /-- Partitions are revoked or lost. -/
  | revoke (partitions : List TopicPartition) (lost : Bool)
  /-- Their tasks have ended, and the callback returns. -/
  | released (commitFails : Bool)
  /-- The callback has waited for too long, and raises. -/
  | releaseTimeout
  /-- All tasks have ended, and the consumer is closed. -/
  | close
  /-- librdkafka commits what is stored. -/
  | autoCommit
  /-- Another consumer of the group commits. -/
  | commitElsewhere (partition : TopicPartition) (offset : ℕ)
  /-- `on_delivery` is called. -/
  | report (record : ℕ) (report : DeliveryReport)
  | task (partition : TopicPartition) (event : TaskEvent)

namespace WorkerState

variable (s : WorkerState)

/-- A partition changes. -/
def setPartition (key : TopicPartition) (p : PartitionState) : WorkerState :=
  { s with partitions := Function.update s.partitions key (some p) }

/-- The assignment of a partition changes, if it is assigned. -/
def modifyAssignment (key : TopicPartition) (f : Assignment → Assignment) : WorkerState :=
  { s with assigned := Function.update s.assigned key ((s.assigned key).map f) }

/-- `store_offsets`: it raises when the partition is not assigned. -/
def storeOffset (key : TopicPartition) (offset : ℕ) : WorkerState :=
  s.modifyAssignment key fun a => { a with storedOffsets := a.storedOffsets ++ [offset] }

/-- `consumer.pause` and `consumer.resume`. -/
def setPaused (key : TopicPartition) (paused : Bool) : WorkerState :=
  s.modifyAssignment key fun a => { a with paused := paused }

/-- The committed offsets after a commit of what is stored. -/
def commitStored : TopicPartition → ℕ := fun key => ((s.assigned key).bind Assignment.stored).getD (s.committed key)

/-- The start of `_stop_partitions`. -/
def stopPartitions (keys : List TopicPartition) : WorkerState :=
  { s with partitions := fun key => if key ∈ keys then (s.partitions key).map PartitionState.stop else s.partitions key }

/-- The tasks of some partitions have ended. -/
def allFinished (keys : List TopicPartition) : Bool :=
  keys.all fun key => ((s.partitions key).map PartitionState.finished).getD true

/-- The partitions are no longer the worker's. -/
def popPartitions (keys : List TopicPartition) : WorkerState :=
  { s with
    partitions := fun key => if key ∈ keys then none else s.partitions key
    held := s.held.filter (· ∉ keys) }

/-- The partitions are no longer the consumer's. -/
def unassign (keys : List TopicPartition) : WorkerState :=
  { s with assigned := fun key => if key ∈ keys then none else s.assigned key }

/-- `_shutdown` begins. -/
def shutdown : WorkerState := { s.stopPartitions s.held with phase := .draining }

/-- `while self._running`. -/
def loopHead : WorkerState := if s.running then { s with phase := .polling } else s.shutdown

/-- `_stop_partitions` waits for the task of a partition. -/
def draining (key : TopicPartition) : Bool :=
  match s.phase with
  | .releasing keys _ => decide (key ∈ keys)
  | .draining => decide (key ∈ s.held)
  | _ => false

/-- `_dispatch`. -/
def dispatch (settings : WorkerSettings) (message : Message) : WorkerState :=
  let key := message.topicPartition
  match s.partitions key with
  | none => s
  | some p =>
    if p.stopping then s
    else
      let queue := p.queue ++ [some message]
      if !p.paused && decide (settings.partitionHighWatermark ≤ queue.length) then
        (s.setPaused key true).setPartition key { p with queue := queue, paused := true }
      else s.setPartition key { p with queue := queue }

/-- The end of a pass of `_consume_partition`: resume the partition if its backlog is small again, and go to the loop's head. -/
def endPass (settings : WorkerSettings) (key : TopicPartition) (p : PartitionState) : WorkerState :=
  if p.paused && decide (p.queue.length ≤ settings.partitionHighWatermark / 2) then
    (s.setPaused key false).setPartition key { p with paused := false }.loopHead
  else s.setPartition key p.loopHead

end WorkerState

/-! ## Tasks -/

/-- What a step of the task of a partition does. -/
def taskStep (settings : WorkerSettings) (s : WorkerState) (key : TopicPartition) (p : PartitionState) :
    TaskEvent → Option WorkerState
  | .begin =>
    match p.task with
    | .created => some (s.setPartition key p.loopHead)
    | _ => none
  | .get =>
    match p.task, p.queue with
    | .getting, none :: queue => some (s.setPartition key { p with queue := queue, task := .ended })
    | .getting, some message :: queue =>
      if p.stopping then some (s.setPartition key { p with queue := queue, task := .ended })
      else some (s.setPartition key { p with queue := queue, task := .handling message (.enter p.stopping) none })
    | _, _ => none
  | .processed result correlationId random =>
    match p.task with
    | .handling message h none =>
      (h.step settings message p.stopping (.processed result correlationId random)).map fun h =>
        { s.setPartition key { p with task := .handling message h none } with
          processed := if result.isOk then s.processed ++ [message] else s.processed }
    | _ => none
  | .wake =>
    match p.task with
    | .handling message h none =>
      (h.step settings message p.stopping .wake).map fun h => s.setPartition key { p with task := .handling message h none }
    | _ => none
  | .produce error random =>
    match p.task with
    | .handling message h none =>
      match h.phase with
      | .publishing letter =>
        match error with
        | none => some { s.setPartition key { p with task := .handling message h (some (s.producer.publication letter)) } with
            producer := s.producer.produce letter }
        | some error =>
          (h.step settings message p.stopping (.published (.error error.raised) random)).map fun h =>
            s.setPartition key { p with task := .handling message h none }
      | _ => none
    | _ => none
  | .publication event random =>
    match p.task with
    | .handling message h (some publication) =>
      match publication.step s.producer event with
      | none => none
      | some (.inl publication) => some (s.setPartition key { p with task := .handling message h (some publication) })
      | some (.inr result) =>
        (h.step settings message p.stopping (.published result random)).map fun h =>
          { s.setPartition key { p with task := .handling message h none } with
            published := if result.isOk then s.published ++ [(publication.letter, publication.record)] else s.published }
    | _ => none
  | .finish storeFails =>
    match p.task with
    | .handling message h _ =>
      match h.phase with
      | .returned handled =>
        let stored := if handled && !storeFails then s.storeOffset key (message.offset + 1) else s
        some (stored.endPass settings key p)
      | .raised _ => some (s.setPartition key { p with task := .ended })
      | _ => none
    | _ => none
  | .cancel =>
    if s.draining key then
      match p.task with
      | .created | .getting => some (s.setPartition key { p with task := .ended })
      | .handling message h _ =>
        (h.step settings message p.stopping .cancel).map fun h => s.setPartition key { p with task := .handling message h none }
      | .ended => none
    else none

/-! ## The loop -/

/-- What a step does. -/
def workerStep (settings : WorkerSettings) (s : WorkerState) : WorkerEvent → Option WorkerState
  | .stop => some { s with running := false }
  | .poll message =>
    match s.phase, s.assigned message.topicPartition with
    | .polling, some a =>
      if !a.paused && decide (a.position ≤ message.offset) then
        some { s.modifyAssignment message.topicPartition (fun a =>
            { a with position := message.offset + 1, delivered := a.delivered ++ [message] }) with
          phase := .dispatching message }
      else none
    | _, _ => none
  | .pollNothing =>
    match s.phase with
    | .polling => some s.loopHead
    | _ => none
  | .pollFails =>
    match s.phase with
    | .polling => some s.shutdown
    | _ => none
  | .dispatch =>
    match s.phase with
    | .dispatching message => some (s.dispatch settings message).loopHead
    | _ => none
  | .assign key =>
    match s.phase, s.assigned key with
    | .polling, none =>
      let assigned := { s with assigned := Function.update s.assigned key (some ⟨s.committed key, false, [], []⟩) }
      match s.partitions key with
      | some _ => some assigned
      | none => some { assigned.setPartition key .new with held := s.held ++ [key] }
    | _, _ => none
  | .revoke keys lost =>
    match s.phase with
    | .polling => some { s.stopPartitions keys with phase := .releasing keys lost }
    | _ => none
  | .released commitFails =>
    match s.phase with
    | .releasing keys lost =>
      if s.allFinished keys then
        some { (s.popPartitions keys).unassign keys with
          committed := if lost || commitFails then s.committed else s.commitStored
          phase := .polling }
      else none
    | _ => none
  | .releaseTimeout =>
    match s.phase with
    | .releasing keys _ => some (s.unassign keys).shutdown
    | _ => none
  | .close =>
    match s.phase with
    | .draining =>
      if s.allFinished s.held then
        some { s.popPartitions s.held with
          assigned := fun _ => none
          committed := s.commitStored
          phase := .closed }
      else none
    | _ => none
  | .autoCommit =>
    match s.phase with
    | .closed => none
    | _ => some { s with committed := s.commitStored }
  | .commitElsewhere key offset => some { s with committed := Function.update s.committed key offset }
  | .report record report => (s.producer.report record report).map fun producer => { s with producer := producer }
  | .task key event =>
    match s.partitions key with
    | none => none
    | some p => taskStep settings s key p event

/-- A worker that has subscribed. -/
def WorkerState.subscribed (committed : TopicPartition → ℕ) : WorkerState where
  running := true
  phase := .polling
  partitions := fun _ => none
  held := []
  assigned := fun _ => none
  committed := committed
  producer := .empty
  processed := []
  published := []

/-- A worker, from any committed offsets on. -/
def fraudWorker (settings : WorkerSettings) : StepSystem WorkerState WorkerEvent where
  start s := ∃ committed, s = .subscribed committed
  step := workerStep settings

end FraudDetection
