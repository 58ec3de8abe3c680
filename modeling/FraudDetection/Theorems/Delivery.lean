import FraudDetection.Lib.InOrder
import FraudDetection.Theorems.Handling
import FraudDetection.Worker

/-!
# No message is lost

An offset is stored when its message has been handled, and a partition's messages are handled one after another in the order of their
delivery. Messages are dropped only where the partition is stopping; then nothing after them is handled, so no later offset is stored
in that assignment.
-/

namespace FraudDetection

/-- The letter is a dead letter of a message: it carries the message and some failure of it. -/
def DeadLetter.IsFor (letter : DeadLetter) (message : Message) : Prop := ∃ failure, letter.Carries message failure

/-- `handler.process` has returned for a message, or `publish` has for a dead letter of it, of whose record no error was reported. -/
def WorkerState.Handled (s : WorkerState) (message : Message) : Prop :=
  message ∈ s.processed ∨
    ∃ letter record, (letter, record) ∈ s.published ∧ letter.IsFor message ∧ s.producer.records[record]? = some letter ∧
      s.producer.reports record = some .stored

namespace DeliveryAux

open HandlingAux

/-! ## What stays -/

/-- Calls that have returned, records and reports stay. -/
structure Grows (s s' : WorkerState) : Prop where
  processed : ∀ m ∈ s.processed, m ∈ s'.processed
  published : ∀ p ∈ s.published, p ∈ s'.published
  records : ∀ (record : ℕ) letter, s.producer.records[record]? = some letter → s'.producer.records[record]? = some letter
  reports : ∀ (record : ℕ) report, s.producer.reports record = some report → s'.producer.reports record = some report

theorem grows_of_eq {s s' : WorkerState} (hprocessed : s'.processed = s.processed) (hpublished : s'.published = s.published)
    (hproducer : s'.producer = s.producer) : Grows s s' where
  processed m hm := by rw [hprocessed]; exact hm
  published p hp := by rw [hpublished]; exact hp
  records record letter hr := by rw [hproducer]; exact hr
  reports record report hr := by rw [hproducer]; exact hr

theorem handled_grows {s s' : WorkerState} (hg : Grows s s') {message : Message} (h : s.Handled message) : s'.Handled message := by
  rcases h with h | ⟨letter, record, hp, hfor, hrecord, hreport⟩
  · exact .inl (hg.processed message h)
  · exact .inr ⟨letter, record, hg.published _ hp, hfor, hg.records record letter hrecord, hg.reports record _ hreport⟩

/-! ## What waits -/

/-- The message that the task of a partition is at. -/
def inFlight (p : PartitionState) : List Message :=
  match p.task with
  | .handling message _ _ => [message]
  | _ => []

/-- The messages in the queue. -/
def waiting (p : PartitionState) : List Message := p.queue.filterMap id

/-- The message that `poll` has returned and that is not yet dispatched. -/
def inHand (s : WorkerState) (key : TopicPartition) : List Message :=
  match s.phase with
  | .dispatching message => if message.topicPartition = key then [message] else []
  | _ => []

/-- What of a partition is still to be handled: the message at hand first. What comes after it is still in the queue or in hand, unless
the task comes to its end. -/
def Pending (s : WorkerState) (key : TopicPartition) (p : PartitionState) (pending : List Message) : Prop :=
  ∃ rest, pending = inFlight p ++ rest ∧ (p.stopping = true ∨ p.finished = true ∨ rest = waiting p ++ inHand s key)

/-! ## The invariant -/

/-- A message under way: `_handle` has its own invariant, it returns `True` only for a handled message, and a call of `publish` has
produced the record of its letter. -/
def TaskInv (settings : WorkerSettings) (s : WorkerState) (p : PartitionState) : Prop :=
  ∀ message h publication, p.task = .handling message h publication →
    LoopInv settings.maxUnexpectedErrorAttempts message (p.stopping, h) ∧ (h.phase = .returned true → s.Handled message) ∧
      ∀ call, publication = some call → h.phase = .publishing call.letter ∧
        s.producer.records[call.record]? = some call.letter ∧
        ∀ report, call.delivered = some report → s.producer.reports call.record = some report

/-- What holds of an assigned partition, and of its task. -/
structure KeyInv (settings : WorkerSettings) (s : WorkerState) (key : TopicPartition) : Prop where
  assignment : ∀ a, s.assigned key = some a → (∀ m ∈ a.delivered, m.offset < a.position) ∧
    ∃ pending, InOrder Message.offset s.Handled a.delivered a.storedOffsets pending ∧
      ∀ p, s.partitions key = some p → Pending s key p pending
  task : ∀ p, s.partitions key = some p → TaskInv settings s p

/-- The loop still polls, or will. -/
def polls : RunPhase → Bool
  | .polling | .releasing _ _ | .dispatching _ => true
  | _ => false

/-- What holds in every reachable state. While the loop polls, the worker has no partition that the consumer does not have. -/
structure Inv (settings : WorkerSettings) (s : WorkerState) : Prop where
  keys : ∀ key, KeyInv settings s key
  assigned : polls s.phase = true → ∀ key p, s.partitions key = some p → ∃ a, s.assigned key = some a

theorem taskInv_grows {settings : WorkerSettings} {s s' : WorkerState} {p : PartitionState} (hg : Grows s s')
    (h : TaskInv settings s p) : TaskInv settings s' p := by
  intro message handling publication ht
  obtain ⟨hloop, hreturned, hcall⟩ := h message handling publication ht
  refine ⟨hloop, fun hr => handled_grows hg (hreturned hr), fun call hc => ?_⟩
  obtain ⟨hphase, hrecord, hreport⟩ := hcall call hc
  exact ⟨hphase, hg.records _ _ hrecord, fun report hd => hg.reports _ _ (hreport report hd)⟩

/-- An assignment that has delivered and stored the same. -/
def SameLog (a a' : Assignment) : Prop :=
  a'.position = a.position ∧ a'.delivered = a.delivered ∧ a'.storedOffsets = a.storedOffsets

/-- A partition of which no more is known than before. -/
theorem keyInv_of {settings : WorkerSettings} {s s' : WorkerState} {key : TopicPartition} (h : KeyInv settings s key)
    (hg : Grows s s') (ha : ∀ a', s'.assigned key = some a' → ∃ a, s.assigned key = some a ∧ SameLog a a')
    (hp : ∀ p', s'.partitions key = some p' → ∃ p, s.partitions key = some p ∧ TaskInv settings s' p' ∧
      ∀ pending, Pending s key p pending → Pending s' key p' pending) : KeyInv settings s' key where
  assignment a' ha' := by
    obtain ⟨a, hassigned, hposition, hdelivered, hstored⟩ := ha a' ha'
    obtain ⟨hbelow, pending, horder, hpending⟩ := h.assignment a hassigned
    rw [hposition, hdelivered, hstored]
    refine ⟨hbelow, pending, horder.mono fun m => handled_grows hg, fun p' hp' => ?_⟩
    obtain ⟨p, hpartition, -, hkeep⟩ := hp p' hp'
    exact hkeep pending (hpending p hpartition)
  task p' hp' := by
    obtain ⟨p, -, htask, -⟩ := hp p' hp'
    exact htask

/-- A partition that a step leaves alone, or that is taken away. -/
theorem keyInv_frame {settings : WorkerSettings} {s s' : WorkerState} {key : TopicPartition} (h : KeyInv settings s key)
    (hg : Grows s s') (ha : ∀ a, s'.assigned key = some a → s.assigned key = some a)
    (hp : ∀ p, s'.partitions key = some p → s.partitions key = some p) (hh : inHand s' key = inHand s key) :
    KeyInv settings s' key := by
  refine keyInv_of h hg (fun a ha' => ⟨a, ha a ha', rfl, rfl, rfl⟩) fun p hp' => ?_
  refine ⟨p, hp p hp', taskInv_grows hg (h.task p (hp p hp')), fun pending hpending => ?_⟩
  obtain ⟨rest, heq, hrest⟩ := hpending
  exact ⟨rest, heq, by rw [hh]; exact hrest⟩

/-! ## Steps of a task -/

/-- `_handle` comes to return `True` only when a call of `process` or of `publish` has returned. -/
theorem step_returned {settings : WorkerSettings} {message : Message} {stopping : Bool} {h h' : Handling} {event : HandlingEvent}
    (hs : h.step settings message stopping event = some h') (hr : h'.phase = .returned true) :
    (∃ correlationId random, event = .processed (.ok ()) correlationId random) ∨ ∃ random, event = .published (.ok ()) random := by
  have hpass : ∀ h : Handling, (h.pass stopping).phase ≠ .returned true := by
    intro h
    unfold Handling.pass
    cases stopping with
    | true => simp
    | false =>
      simp only [Bool.false_eq_true, if_false]
      cases h.pendingLetter with
      | none => simp
      | some letter => simp
  have hretry : ∀ (h : Handling) (random : Random), (h.retry settings random).phase ≠ .returned true := by
    intro h random
    unfold Handling.retry
    split <;> simp
  cases event with
  | processed result correlationId random =>
    cases result with
    | ok _ => exact .inl ⟨correlationId, random, rfl⟩
    | error e =>
      simp only [Handling.step] at hs
      split at hs
      · cases hs
        unfold Handling.fail at hr
        simp only at hr
        split_ifs at hr
        · exact absurd hr (hpass _)
        · exact absurd hr (hretry _ random)
        · exact absurd hr (hpass _)
        · exact absurd hr (hretry _ random)
      · cases hs
  | published result random =>
    cases result with
    | ok _ => exact .inr ⟨random, rfl⟩
    | error e =>
      simp only [Handling.step] at hs
      split at hs
      · cases hs
        exact absurd hr (hretry _ random)
      · cases hs
  | wake =>
    simp only [Handling.step] at hs
    split at hs
    · cases hs
      exact absurd hr (hpass h)
    · cases hs
  | cancel =>
    simp only [Handling.step] at hs
    split at hs
    · cases hs
      cases hr
    · cases hs
      cases hr
    · cases hs
      cases hr
    · cases hs

/-- A letter that is about to be published is that of its message. -/
theorem letter_isFor {attempts : ℕ} {message : Message} {stopping : Bool} {h : Handling} {letter : DeadLetter}
    (hi : LoopInv attempts message (stopping, h)) (hp : h.phase = .publishing letter) : letter.IsFor message := by
  unfold LoopInv at hi
  simp only [hp] at hi
  obtain ⟨failures, error, publishes, -, -, hcarries, -⟩ := hi
  exact ⟨error, hcarries⟩

/-- A step of the task of one partition, which the other partitions and the loop do not see. -/
theorem inv_setTask {settings : WorkerSettings} {s s' : WorkerState} {key : TopicPartition} {p p' : PartitionState}
    (h : Inv settings s) (hg : Grows s s') (hp : s.partitions key = some p)
    (hpartitions : s'.partitions = Function.update s.partitions key (some p')) (hassigned : s'.assigned = s.assigned)
    (hphase : s'.phase = s.phase) (hpending : ∀ pending, Pending s key p pending → Pending s key p' pending)
    (htask : TaskInv settings s' p') : Inv settings s' where
  keys k := by
    have hhand : inHand s' k = inHand s k := by
      unfold inHand
      rw [hphase]
    by_cases heq : k = key
    · subst heq
      refine keyInv_of (h.keys k) hg (fun a ha => ⟨a, hassigned ▸ ha, rfl, rfl, rfl⟩) fun q hq => ?_
      rw [hpartitions, Function.update_self] at hq
      cases hq
      refine ⟨p, hp, htask, fun pending hold => ?_⟩
      obtain ⟨rest, hrest, hwhere⟩ := hpending pending hold
      exact ⟨rest, hrest, by rw [hhand]; exact hwhere⟩
    · refine keyInv_frame (h.keys k) hg (fun a ha => hassigned ▸ ha) (fun q hq => ?_) hhand
      rw [hpartitions, Function.update_of_ne heq] at hq
      exact hq
  assigned hpolls k q hq := by
    rw [hphase] at hpolls
    rw [hassigned]
    by_cases heq : k = key
    · subst heq
      exact h.assigned hpolls k p hp
    · rw [hpartitions, Function.update_of_ne heq] at hq
      exact h.assigned hpolls k q hq

/-- The task of a partition comes to its end with its message unhandled, or with none. -/
theorem pending_ended {s : WorkerState} {key : TopicPartition} {p : PartitionState} (hp : p.task = .ended)
    (pending : List Message) : Pending s key p pending := by
  refine ⟨pending, ?_, .inr (.inl ?_)⟩
  · unfold inFlight
    rw [hp]
    rfl
  · unfold PartitionState.finished
    rw [hp]

/-- `_handle` goes on with its message. -/
theorem pending_handling {s : WorkerState} {key : TopicPartition} {p : PartitionState} {message : Message} {h h' : Handling}
    {call call' : Option Publication} (ht : p.task = .handling message h call) (pending : List Message)
    (hold : Pending s key p pending) : Pending s key { p with task := .handling message h' call' } pending := by
  obtain ⟨rest, heq, hrest⟩ := hold
  refine ⟨rest, ?_, ?_⟩
  · rw [heq]
    unfold inFlight
    rw [ht]
  · rcases hrest with hrest | hrest | hrest
    · exact .inl hrest
    · unfold PartitionState.finished at hrest
      rw [ht] at hrest
      cases hrest
    · exact .inr (.inr hrest)

/-- A partition at the head of its loop. -/
theorem pending_loopHead {s : WorkerState} {key : TopicPartition} {p : PartitionState} {rest : List Message}
    (hrest : p.stopping = true ∨ rest = waiting p ++ inHand s key) : Pending s key p.loopHead rest := by
  unfold PartitionState.loopHead
  cases hs : p.stopping with
  | true =>
    refine pending_ended ?_ rest
    simp only [if_true]
  | false =>
    refine ⟨rest, rfl, ?_⟩
    rcases hrest with hstop | hrest
    · rw [hs] at hstop
      cases hstop
    · exact .inr (.inr hrest)

theorem taskInv_none {settings : WorkerSettings} {s : WorkerState} {p : PartitionState}
    (h : ∀ message h publication, p.task ≠ .handling message h publication) : TaskInv settings s p :=
  fun message handling publication ht => absurd ht (h message handling publication)

theorem taskInv_loopHead {settings : WorkerSettings} {s : WorkerState} (p : PartitionState) : TaskInv settings s p.loopHead := by
  refine taskInv_none fun message h publication ht => ?_
  unfold PartitionState.loopHead at ht
  cases hs : p.stopping with
  | true =>
    rw [hs] at ht
    cases ht
  | false =>
    rw [hs] at ht
    cases ht

/-- Pausing and resuming change nothing that is delivered or stored. -/
theorem inv_pause {settings : WorkerSettings} {s : WorkerState} {key : TopicPartition} {p : PartitionState}
    (h : Inv settings (s.setPartition key p)) (paused : Bool) :
    Inv settings ((s.setPaused key paused).setPartition key { p with paused := paused }) where
  keys k := by
    refine keyInv_of (h.keys k) (grows_of_eq rfl rfl rfl) (fun a' ha' => ?_) fun p' hp' => ?_
    · simp only [WorkerState.setPartition, WorkerState.setPaused, WorkerState.modifyAssignment] at ha' ⊢
      rcases StepSystem.update_cases ha' with ⟨rfl, hnew⟩ | ⟨-, ha'⟩
      · obtain ⟨a, ha, rfl⟩ := Option.map_eq_some_iff.mp hnew
        exact ⟨a, ha, rfl, rfl, rfl⟩
      · exact ⟨a', ha', rfl, rfl, rfl⟩
    · simp only [WorkerState.setPartition] at hp' ⊢
      by_cases heq : k = key
      · subst heq
        rw [Function.update_self] at hp' ⊢
        cases hp'
        have hself : (s.setPartition k p).partitions k = some p := Function.update_self ..
        exact ⟨p, rfl, fun message handling publication ht => (h.keys k).task p hself message handling publication ht,
          fun pending hpending => hpending⟩
      · rw [Function.update_of_ne heq] at hp' ⊢
        have hold : (s.setPartition key p).partitions k = some p' := by
          simp only [WorkerState.setPartition]
          rw [Function.update_of_ne heq]
          exact hp'
        exact ⟨p', hp', fun message handling publication ht => (h.keys k).task p' hold message handling publication ht,
          fun pending hpending => hpending⟩
  assigned hpolls k p' hp' := by
    simp only [WorkerState.setPartition, WorkerState.setPaused, WorkerState.modifyAssignment] at hp' ⊢
    have hsome : ∃ a, (s.setPartition key p).assigned k = some a := by
      refine h.assigned hpolls k (if k = key then p else p') ?_
      simp only [WorkerState.setPartition]
      by_cases heq : k = key
      · subst heq
        rw [Function.update_self, if_pos rfl]
      · rw [Function.update_of_ne heq, if_neg heq]
        rw [Function.update_of_ne heq] at hp'
        exact hp'
    obtain ⟨a, ha⟩ := hsome
    by_cases heq : k = key
    · subst heq
      rw [Function.update_self]
      exact ⟨_, by rw [show s.assigned k = some a from ha]; rfl⟩
    · rw [Function.update_of_ne heq]
      exact ⟨a, ha⟩

/-- A task goes back to the head of its loop, and what its order says of the assignment is said of the assignment that is left. -/
theorem inv_nextMessage {settings : WorkerSettings} {s s' : WorkerState} {key : TopicPartition} {p : PartitionState}
    {store : Assignment → Assignment} (hi : Inv settings s) (hg : Grows s s') (hp : s.partitions key = some p)
    (hpartitions : s'.partitions = Function.update s.partitions key (some p.loopHead))
    (hassigned : s'.assigned = Function.update s.assigned key ((s.assigned key).map store)) (hphase : s'.phase = s.phase)
    (hstore : ∀ a, (store a).position = a.position ∧ (store a).delivered = a.delivered)
    (hrest : ∀ a pending, Pending s key p pending → InOrder Message.offset s.Handled a.delivered a.storedOffsets pending →
      ∃ rest, (p.stopping = true ∨ rest = waiting p ++ inHand s key) ∧
        InOrder Message.offset s.Handled a.delivered (store a).storedOffsets rest) : Inv settings s' where
  keys k := by
    have hhand : inHand s' k = inHand s k := by
      unfold inHand
      rw [hphase]
    by_cases heq : k = key
    · subst heq
      refine ⟨fun a' ha' => ?_, fun q hq => ?_⟩
      · rw [hassigned, Function.update_self] at ha'
        obtain ⟨a, ha, rfl⟩ := Option.map_eq_some_iff.mp ha'
        obtain ⟨hbelow, pending, horder, hpending⟩ := (hi.keys k).assignment a ha
        obtain ⟨rest, hwhere, hleft⟩ := hrest a pending (hpending p hp) horder
        rw [(hstore a).1, (hstore a).2]
        refine ⟨hbelow, rest, hleft.mono fun m => handled_grows hg, fun q hq => ?_⟩
        rw [hpartitions, Function.update_self] at hq
        cases hq
        exact pending_loopHead (by rw [hhand]; exact hwhere)
      · rw [hpartitions, Function.update_self] at hq
        cases hq
        exact taskInv_loopHead p
    · refine keyInv_frame (hi.keys k) hg (fun a ha => ?_) (fun q hq => ?_) hhand
      · rw [hassigned, Function.update_of_ne heq] at ha
        exact ha
      · rw [hpartitions, Function.update_of_ne heq] at hq
        exact hq
  assigned hpolls k q hq := by
    rw [hphase] at hpolls
    by_cases heq : k = key
    · subst heq
      obtain ⟨a, ha⟩ := hi.assigned hpolls k p hp
      rw [hassigned, Function.update_self, ha]
      exact ⟨_, rfl⟩
    · rw [hpartitions, Function.update_of_ne heq] at hq
      rw [hassigned, Function.update_of_ne heq]
      exact hi.assigned hpolls k q hq

/-- A message has been handled, or given up because its partition is stopping; its offset may be stored. -/
theorem inv_handled {settings : WorkerSettings} {s : WorkerState} {key : TopicPartition} {p : PartitionState} {message : Message}
    {h : Handling} {call : Option Publication} {handled : Bool} (hi : Inv settings s) (hp : s.partitions key = some p)
    (ht : p.task = .handling message h call) (hr : h.phase = .returned handled) (storeFails : Bool) :
    Inv settings ((if handled && !storeFails then s.storeOffset key (message.offset + 1) else s).setPartition key p.loopHead) := by
  obtain ⟨hloop, hreturned, -⟩ := (hi.keys key).task p hp message h call ht
  have hunfinished : p.finished = false := by
    unfold PartitionState.finished
    rw [ht]
  -- the message at hand is the first one that is pending
  have hfirst : ∀ pending, Pending s key p pending → ∃ rest, pending = message :: rest ∧
      (p.stopping = true ∨ rest = waiting p ++ inHand s key) := by
    rintro pending ⟨rest, heq, hwhere⟩
    refine ⟨rest, ?_, ?_⟩
    · rw [heq]
      unfold inFlight
      rw [ht]
      rfl
    · rcases hwhere with hwhere | hwhere | hwhere
      · exact .inl hwhere
      · rw [hunfinished] at hwhere
        cases hwhere
      · exact .inr hwhere
  have hunstored : s.assigned = Function.update s.assigned key ((s.assigned key).map id) := by
    rw [Option.map_id_apply, Function.update_eq_self]
  cases handled with
  | false =>
    have hstop : p.stopping = true := by
      unfold LoopInv at hloop
      simp only [hr] at hloop
      exact hloop.1
    simp only [Bool.false_and, Bool.false_eq_true, if_false]
    exact inv_nextMessage hi (grows_of_eq rfl rfl rfl) hp rfl hunstored rfl (fun a => ⟨rfl, rfl⟩)
      fun a pending _ horder => ⟨pending, .inl hstop, horder⟩
  | true =>
    have hhandled : s.Handled message := hreturned hr
    cases storeFails with
    | true =>
      simp only [Bool.not_true, Bool.and_false, Bool.false_eq_true, if_false]
      refine inv_nextMessage hi (grows_of_eq rfl rfl rfl) hp rfl hunstored rfl (fun a => ⟨rfl, rfl⟩) fun a pending hpending horder => ?_
      obtain ⟨rest, rfl, hwhere⟩ := hfirst pending hpending
      exact ⟨rest, hwhere, horder.finish hhandled⟩
    | false =>
      simp only [Bool.not_false, Bool.and_true, if_true]
      refine inv_nextMessage hi (grows_of_eq rfl rfl rfl) hp rfl rfl rfl (fun a => ⟨rfl, rfl⟩) fun a pending hpending horder => ?_
      obtain ⟨rest, rfl, hwhere⟩ := hfirst pending hpending
      exact ⟨rest, hwhere, horder.mark hhandled⟩

/-- The end of a pass. -/
theorem inv_endPass {settings : WorkerSettings} {s : WorkerState} {key : TopicPartition} {p : PartitionState}
    (h : Inv settings (s.setPartition key p.loopHead)) : Inv settings (s.endPass settings key p) := by
  unfold WorkerState.endPass
  split
  · exact inv_pause h false
  · exact h

/-- What a call of `publish` goes on with: its record is there, and its future has what was reported of that record. -/
theorem publication_step {producer : Producer} {call call' : Publication} {event : PublicationEvent}
    (hs : call.step producer event = some (.inl call')) :
    call'.letter = call.letter ∧ call'.record = call.record ∧
      ∀ report, call'.delivered = some report → call.delivered = some report ∨ producer.reports call.record = some report := by
  cases event with
  | settle =>
    simp only [Publication.step] at hs
    split at hs
    · rename_i report hd hr
      cases hs
      refine ⟨rfl, rfl, fun report' hreport => .inr ?_⟩
      cases hreport
      exact hr
    · cases hs
  | flushed =>
    simp only [Publication.step] at hs
    split at hs
    · cases hs
    · cases hs
      exact ⟨rfl, rfl, fun report hreport => .inl hreport⟩
  | delivered =>
    simp only [Publication.step] at hs
    split at hs
    · obtain ⟨report, -, heq⟩ := Option.map_eq_some_iff.mp hs
      cases heq
    · cases hs
  | timeout =>
    simp only [Publication.step] at hs
    split at hs
    · cases hs
    · cases hs

/-- `publish` returns only when no error has been reported. -/
theorem publication_returned {producer : Producer} {call : Publication} {event : PublicationEvent} {result : CallResult}
    (hs : call.step producer event = some (.inr result)) (hok : result = .ok ()) : call.delivered = some .stored := by
  subst hok
  cases event with
  | settle =>
    simp only [Publication.step] at hs
    split at hs <;> cases hs
  | flushed =>
    simp only [Publication.step] at hs
    split at hs <;> cases hs
  | delivered =>
    simp only [Publication.step] at hs
    split at hs
    · obtain ⟨report, hd, heq⟩ := Option.map_eq_some_iff.mp hs
      cases report with
      | stored => exact hd
      | failed error => cases heq
    · cases hs
  | timeout =>
    simp only [Publication.step] at hs
    split at hs <;> cases hs

/-- `_handle` goes on with its message, at no call of `publish` that has produced a record. -/
theorem taskInv_handling {settings : WorkerSettings} {s : WorkerState} {p : PartitionState} {message : Message} {h h' : Handling}
    {event : HandlingEvent} (hi : LoopInv settings.maxUnexpectedErrorAttempts message (p.stopping, h))
    (hs : h.step settings message p.stopping event = some h') (hr : h'.phase = .returned true → s.Handled message) :
    TaskInv settings s { p with task := .handling message h' none } := by
  intro m hd call ht
  cases ht
  exact ⟨step_inv hi hs, hr, fun call hc => by cases hc⟩

/-- The task of a partition goes on with its message, which is not handled by that. -/
theorem inv_goesOn {settings : WorkerSettings} {s : WorkerState} {key : TopicPartition} {p : PartitionState} {message : Message}
    {h h' : Handling} {call : Option Publication} {event : HandlingEvent} (hi : Inv settings s) (hp : s.partitions key = some p)
    (ht : p.task = .handling message h call) (hs : h.step settings message p.stopping event = some h')
    (hprocessed : ∀ correlationId random, event ≠ .processed (.ok ()) correlationId random)
    (hpublished : ∀ random, event ≠ .published (.ok ()) random) :
    Inv settings (s.setPartition key { p with task := .handling message h' none }) := by
  obtain ⟨hloop, -, -⟩ := (hi.keys key).task p hp message h call ht
  refine inv_setTask hi (grows_of_eq rfl rfl rfl) hp rfl rfl rfl (pending_handling ht) (taskInv_handling hloop hs fun hr => ?_)
  rcases step_returned hs hr with ⟨correlationId, random, heq⟩ | ⟨random, heq⟩
  · exact absurd heq (hprocessed correlationId random)
  · exact absurd heq (hpublished random)

/-- The task of a partition comes to its end. -/
theorem inv_ended {settings : WorkerSettings} {s : WorkerState} {key : TopicPartition} {p p' : PartitionState}
    (hi : Inv settings s) (hp : s.partitions key = some p) (hended : p'.task = .ended) :
    Inv settings (s.setPartition key p') := by
  refine inv_setTask hi (grows_of_eq rfl rfl rfl) hp rfl rfl rfl (fun pending _ => pending_ended hended pending) (taskInv_none ?_)
  intro message h publication ht
  rw [hended] at ht
  cases ht

/-- A step of a task. -/
theorem inv_task {settings : WorkerSettings} {s s' : WorkerState} {key : TopicPartition} {p : PartitionState} {event : TaskEvent}
    (hi : Inv settings s) (hp : s.partitions key = some p) (hs : taskStep settings s key p event = some s') : Inv settings s' := by
  cases event with
  | begin =>
    simp only [taskStep] at hs
    split at hs
    · rename_i ht
      cases hs
      refine inv_setTask hi (grows_of_eq rfl rfl rfl) hp rfl rfl rfl (fun pending hpending => ?_) (taskInv_loopHead p)
      obtain ⟨rest, rfl, hwhere⟩ := hpending
      unfold inFlight
      rw [ht]
      refine pending_loopHead ?_
      rcases hwhere with hwhere | hwhere | hwhere
      · exact .inl hwhere
      · unfold PartitionState.finished at hwhere
        rw [ht] at hwhere
        cases hwhere
      · exact .inr hwhere
    · cases hs
  | get =>
    simp only [taskStep] at hs
    split at hs
    · cases hs
      exact inv_setTask hi (grows_of_eq rfl rfl rfl) hp rfl rfl rfl (fun pending _ => pending_ended rfl pending)
        (taskInv_none fun _ _ _ ht => by cases ht)
    · rename_i message queue ht hq
      split at hs
      · cases hs
        exact inv_ended hi hp rfl
      · rename_i hstop
        cases hs
        refine inv_setTask hi (grows_of_eq rfl rfl rfl) hp rfl rfl rfl (fun pending hpending => ?_) ?_
        · obtain ⟨rest, rfl, hwhere⟩ := hpending
          have hrest : rest = message :: (queue.filterMap id ++ inHand s key) := by
            rcases hwhere with hwhere | hwhere | hwhere
            · exact absurd hwhere hstop
            · unfold PartitionState.finished at hwhere
              rw [ht] at hwhere
              cases hwhere
            · rw [hwhere]
              unfold waiting
              rw [hq]
              rfl
          refine ⟨queue.filterMap id ++ inHand s key, ?_, .inr (.inr rfl)⟩
          unfold inFlight
          rw [ht, hrest]
          rfl
        · intro m h call hm
          cases hm
          refine ⟨enter_inv settings message p.stopping, fun hr => ?_, fun call hc => by cases hc⟩
          unfold Handling.enter Handling.pass at hr
          split at hr
          · cases hr
          · cases hr
    · cases hs
  | processed result correlationId random =>
    simp only [taskStep] at hs
    split at hs
    · rename_i message h ht
      obtain ⟨h', hstep, rfl⟩ := Option.map_eq_some_iff.mp hs
      obtain ⟨hloop, -, -⟩ := (hi.keys key).task p hp message h none ht
      have hg : Grows s { s.setPartition key { p with task := .handling message h' none } with
          processed := if result.isOk then s.processed ++ [message] else s.processed } := by
        refine ⟨fun m hm => ?_, fun _ hm => hm, fun _ _ hr => hr, fun _ _ hr => hr⟩
        dsimp only
        split
        · exact List.mem_append_left _ hm
        · exact hm
      refine inv_setTask hi hg hp rfl rfl rfl (pending_handling ht) (taskInv_handling hloop hstep fun hr => .inl ?_)
      rcases step_returned hstep hr with ⟨_, _, heq⟩ | ⟨_, heq⟩
      · cases heq
        exact List.mem_append_right _ (List.mem_singleton_self message)
      · cases heq
    · cases hs
  | wake =>
    simp only [taskStep] at hs
    split at hs
    · rename_i message h ht
      obtain ⟨h', hstep, rfl⟩ := Option.map_eq_some_iff.mp hs
      exact inv_goesOn hi hp ht hstep (by simp) (by simp)
    · cases hs
  | produce error random =>
    simp only [taskStep] at hs
    split at hs
    · rename_i message h ht
      obtain ⟨hloop, -, -⟩ := (hi.keys key).task p hp message h none ht
      split at hs
      · rename_i letter hphase
        split at hs
        · cases hs
          have hg : Grows s { s.setPartition key { p with
              task := .handling message h (some (s.producer.publication letter)) } with producer := s.producer.produce letter } := by
            refine ⟨fun _ hm => hm, fun _ hm => hm, fun record letter' hr => ?_, fun _ _ hr => hr⟩
            simp only [Producer.produce]
            rw [List.getElem?_append_left (List.getElem?_eq_some_iff.mp hr).1]
            exact hr
          refine inv_setTask hi hg hp rfl rfl rfl (pending_handling ht) ?_
          intro m hd call hm
          cases hm
          refine ⟨hloop, fun hr => ?_, fun call hc => ?_⟩
          · rw [hphase] at hr
            cases hr
          · cases hc
            refine ⟨hphase, ?_, fun report hd => by cases hd⟩
            simp [Producer.publication, Producer.produce]
        · rename_i error
          obtain ⟨h', hstep, rfl⟩ := Option.map_eq_some_iff.mp hs
          exact inv_goesOn hi hp ht hstep (by simp) (by simp)
      · cases hs
    · cases hs
  | publication event random =>
    simp only [taskStep] at hs
    split at hs
    · rename_i message h call ht
      obtain ⟨hloop, hreturned, hcall⟩ := (hi.keys key).task p hp message h (some call) ht
      obtain ⟨hphase, hrecord, hreport⟩ := hcall call rfl
      split at hs
      · cases hs
      · rename_i call' hstep
        cases hs
        obtain ⟨hletter, hsame, hdelivered⟩ := publication_step hstep
        refine inv_setTask hi (grows_of_eq rfl rfl rfl) hp rfl rfl rfl (pending_handling ht) ?_
        intro m hd c hm
        cases hm
        refine ⟨hloop, hreturned, fun c hc => ?_⟩
        cases hc
        rw [hletter, hsame]
        refine ⟨hphase, hrecord, fun report hd => ?_⟩
        rcases hdelivered report hd with hd | hd
        · exact hreport report hd
        · exact hd
      · rename_i result hstep
        obtain ⟨h', hhandling, rfl⟩ := Option.map_eq_some_iff.mp hs
        have hg : Grows s { s.setPartition key { p with task := .handling message h' none } with
            published := if result.isOk then s.published ++ [(call.letter, call.record)] else s.published } := by
          refine ⟨fun _ hm => hm, fun m hm => ?_, fun _ _ hr => hr, fun _ _ hr => hr⟩
          dsimp only
          split
          · exact List.mem_append_left _ hm
          · exact hm
        refine inv_setTask hi hg hp rfl rfl rfl (pending_handling ht) (taskInv_handling hloop hhandling fun hr => .inr ?_)
        rcases step_returned hhandling hr with ⟨_, _, heq⟩ | ⟨_, heq⟩
        · cases heq
        · cases heq
          exact ⟨call.letter, call.record, List.mem_append_right _ (List.mem_singleton_self _), letter_isFor hloop hphase,
            hrecord, hreport _ (publication_returned hstep rfl)⟩
    · cases hs
  | finish storeFails =>
    simp only [taskStep] at hs
    split at hs
    · rename_i message h call ht
      split at hs
      · rename_i handled hr
        cases hs
        exact inv_endPass (inv_handled hi hp ht hr storeFails)
      · cases hs
        exact inv_ended hi hp rfl
      · cases hs
    · cases hs
  | cancel =>
    simp only [taskStep] at hs
    split at hs
    · split at hs
      · cases hs
        exact inv_ended hi hp rfl
      · cases hs
        exact inv_ended hi hp rfl
      · rename_i message h call ht
        obtain ⟨h', hstep, rfl⟩ := Option.map_eq_some_iff.mp hs
        exact inv_goesOn hi hp ht hstep (by simp) (by simp)
      · cases hs
    · cases hs

/-! ## Steps of the loop -/

theorem taskInv_stop {settings : WorkerSettings} {s : WorkerState} {p : PartitionState} (h : TaskInv settings s p) :
    TaskInv settings s p.stop := by
  intro message handling call ht
  obtain ⟨hloop, hreturned, hcall⟩ := h message handling call ht
  exact ⟨stop_inv hloop, hreturned, hcall⟩

/-- Telling partitions to stop drops what is in their queues. -/
theorem keyInv_stop {settings : WorkerSettings} {s : WorkerState} {key : TopicPartition} (h : KeyInv settings s key)
    (hhand : inHand s key = []) (keys : List TopicPartition) {phase : RunPhase}
    (hphase : inHand { s.stopPartitions keys with phase := phase } key = []) :
    KeyInv settings { s.stopPartitions keys with phase := phase } key := by
  refine keyInv_of h (grows_of_eq rfl rfl rfl) (fun a ha => ⟨a, ha, rfl, rfl, rfl⟩) fun p' hp' => ?_
  simp only [WorkerState.stopPartitions] at hp'
  split at hp'
  · obtain ⟨p, hp, rfl⟩ := Option.map_eq_some_iff.mp hp'
    refine ⟨p, hp, taskInv_stop (h.task p hp), fun pending hpending => ?_⟩
    obtain ⟨rest, heq, -⟩ := hpending
    exact ⟨rest, heq, .inl rfl⟩
  · refine ⟨p', hp', h.task p' hp', fun pending hpending => ?_⟩
    obtain ⟨rest, heq, hwhere⟩ := hpending
    refine ⟨rest, heq, ?_⟩
    rw [hphase, ← hhand]
    exact hwhere

/-- `_shutdown` begins. -/
theorem inv_shutdown {settings : WorkerSettings} {s : WorkerState} (h : ∀ key, KeyInv settings s key)
    (hhand : ∀ key, inHand s key = []) : Inv settings s.shutdown where
  keys key := keyInv_stop (h key) (hhand key) s.held rfl
  assigned hpolls := by cases hpolls

/-- Where the loop has come from makes no difference at its head. -/
theorem loopHead_phase (s : WorkerState) (phase : RunPhase) : s.loopHead = { s with phase := phase }.loopHead := by
  unfold WorkerState.loopHead
  dsimp only
  split
  · rfl
  · rfl

/-- The loop goes on, or ends. -/
theorem inv_loopHead {settings : WorkerSettings} {s : WorkerState} (h : Inv settings s) (hphase : s.phase = .polling) :
    Inv settings s.loopHead := by
  have hhand : ∀ key, inHand s key = [] := by
    intro key
    unfold inHand
    rw [hphase]
  unfold WorkerState.loopHead
  split
  · rw [← hphase]
    exact h
  · exact inv_shutdown h.keys hhand

/-- A change that no partition sees. -/
theorem inv_frame {settings : WorkerSettings} {s s' : WorkerState} (h : Inv settings s) (hg : Grows s s')
    (hpartitions : s'.partitions = s.partitions) (hassigned : s'.assigned = s.assigned) (hphase : s'.phase = s.phase) :
    Inv settings s' where
  keys key := by
    refine keyInv_frame (h.keys key) hg (fun a ha => hassigned ▸ ha) (fun p hp => hpartitions ▸ hp) ?_
    unfold inHand
    rw [hphase]
  assigned hpolls key p hp := by
    rw [hphase] at hpolls
    rw [hpartitions] at hp
    rw [hassigned]
    exact h.assigned hpolls key p hp

/-- `poll` returns a message, at or after the position. -/
theorem inv_poll {settings : WorkerSettings} {s : WorkerState} {message : Message} {a : Assignment} (h : Inv settings s)
    (hphase : s.phase = .polling) (ha : s.assigned message.topicPartition = some a) (hposition : a.position ≤ message.offset) :
    Inv settings { s.modifyAssignment message.topicPartition (fun a =>
      { a with position := message.offset + 1, delivered := a.delivered ++ [message] }) with phase := .dispatching message } where
  keys key := by
    have hold : inHand s key = [] := by
      unfold inHand
      rw [hphase]
    by_cases heq : key = message.topicPartition
    · subst heq
      refine ⟨fun a' ha' => ?_, fun p hp => taskInv_grows (grows_of_eq rfl rfl rfl) ((h.keys _).task p hp)⟩
      simp only [WorkerState.modifyAssignment, Function.update_self, ha] at ha'
      cases ha'
      obtain ⟨hbelow, pending, horder, hpending⟩ := (h.keys _).assignment a ha
      refine ⟨fun m hm => ?_, pending ++ [message], horder.deliver fun m hm => (hbelow m hm).trans_le hposition, ?_⟩
      · rcases List.mem_append.mp hm with hm | hm
        · exact ((hbelow m hm).trans_le hposition).trans (Nat.lt_succ_self _)
        · rw [List.mem_singleton.mp hm]
          exact Nat.lt_succ_self _
      · intro p hp
        obtain ⟨rest, hrest, hwhere⟩ := hpending p hp
        refine ⟨rest ++ [message], by rw [hrest, List.append_assoc], ?_⟩
        rcases hwhere with hwhere | hwhere | hwhere
        · exact .inl hwhere
        · exact .inr (.inl hwhere)
        · refine .inr (.inr ?_)
          rw [hwhere, hold, List.append_nil]
          unfold inHand
          simp only [if_true]
    · refine keyInv_frame (h.keys key) (grows_of_eq rfl rfl rfl) (fun a' ha' => ?_) (fun p hp => hp) ?_
      · simp only [WorkerState.modifyAssignment, Function.update_of_ne heq] at ha'
        exact ha'
      · rw [hold]
        unfold inHand
        simp only [if_neg fun hm : message.topicPartition = key => heq hm.symm]
  assigned _ key p hp := by
    obtain ⟨a', ha'⟩ := h.assigned (by rw [hphase]; rfl) key p hp
    simp only [WorkerState.modifyAssignment]
    by_cases heq : key = message.topicPartition
    · subst heq
      rw [Function.update_self, ha]
      exact ⟨_, rfl⟩
    · rw [Function.update_of_ne heq]
      exact ⟨a', ha'⟩

/-- The message at hand is put into the queue of its partition, or dropped if that is stopping. -/
theorem inv_dispatch {settings : WorkerSettings} {s : WorkerState} {message : Message} (h : Inv settings s)
    (hphase : s.phase = .dispatching message) : Inv settings { s.dispatch settings message with phase := .polling } := by
  have hother : ∀ key, key ≠ message.topicPartition → inHand s key = [] := by
    intro key hk
    unfold inHand
    rw [hphase]
    exact if_neg fun hm => hk hm.symm
  have hpolls : polls s.phase = true := by
    rw [hphase]
    rfl
  -- nothing is done with it where no task would handle it
  have hdrop : (∀ p, s.partitions message.topicPartition = some p → p.stopping = true) →
      Inv settings { s with phase := .polling } := by
    refine fun hstop => ⟨fun key => ?_, fun _ key p hp => h.assigned hpolls key p hp⟩
    by_cases heq : key = message.topicPartition
    · refine keyInv_of (h.keys key) (grows_of_eq rfl rfl rfl) (fun a ha => ⟨a, ha, rfl, rfl, rfl⟩) fun p hp => ?_
      refine ⟨p, hp, taskInv_grows (grows_of_eq rfl rfl rfl) ((h.keys key).task p hp), fun pending hpending => ?_⟩
      obtain ⟨rest, hrest, -⟩ := hpending
      exact ⟨rest, hrest, .inl (hstop p (heq ▸ hp))⟩
    · refine keyInv_frame (h.keys key) (grows_of_eq rfl rfl rfl) (fun a ha => ha) (fun p hp => hp) ?_
      rw [hother key heq]
      rfl
  unfold WorkerState.dispatch
  dsimp only
  split
  · rename_i hnone
    refine hdrop fun p hp => ?_
    rw [hnone] at hp
    cases hp
  · rename_i p hp
    split
    · rename_i hstop
      refine hdrop fun q hq => ?_
      rw [hp] at hq
      cases hq
      exact hstop
    · -- it goes from the loop's hand to the end of the queue
      have hqueued : Inv settings ({ s with phase := .polling }.setPartition message.topicPartition
          { p with queue := p.queue ++ [some message] }) := by
        refine ⟨fun key => ?_, fun _ key q hq => ?_⟩
        · by_cases heq : key = message.topicPartition
          · subst heq
            refine keyInv_of (h.keys _) (grows_of_eq rfl rfl rfl) (fun a ha => ⟨a, ha, rfl, rfl, rfl⟩) fun q hq => ?_
            simp only [WorkerState.setPartition, Function.update_self] at hq
            cases hq
            refine ⟨p, hp, fun m hd call ht => (h.keys _).task p hp m hd call ht, fun pending hpending => ?_⟩
            obtain ⟨rest, hrest, hwhere⟩ := hpending
            refine ⟨rest, hrest, ?_⟩
            rcases hwhere with hwhere | hwhere | hwhere
            · exact .inl hwhere
            · exact .inr (.inl hwhere)
            · refine .inr (.inr ?_)
              rw [hwhere]
              unfold waiting inHand
              simp [hphase, WorkerState.setPartition]
          · refine keyInv_frame (h.keys key) (grows_of_eq rfl rfl rfl) (fun a ha => ha) (fun q hq => ?_) ?_
            · simp only [WorkerState.setPartition, Function.update_of_ne heq] at hq
              exact hq
            · rw [hother key heq]
              rfl
        · simp only [WorkerState.setPartition] at hq
          by_cases heq : key = message.topicPartition
          · subst heq
            exact h.assigned hpolls _ p hp
          · rw [Function.update_of_ne heq] at hq
            exact h.assigned hpolls key q hq
      split
      · exact inv_pause hqueued true
      · exact hqueued

/-- A partition is assigned, which the worker does not have. -/
theorem inv_assign {settings : WorkerSettings} {s : WorkerState} {key : TopicPartition} (h : Inv settings s)
    (hphase : s.phase = .polling) (hnone : s.assigned key = none) :
    s.partitions key = none ∧ Inv settings { WorkerState.setPartition
      { s with assigned := Function.update s.assigned key (some ⟨s.committed key, false, [], []⟩) } key .new with
        held := s.held ++ [key] } := by
  have hfree : s.partitions key = none := by
    cases hp : s.partitions key with
    | none => rfl
    | some p =>
      obtain ⟨a, ha⟩ := h.assigned (by rw [hphase]; rfl) key p hp
      rw [hnone] at ha
      cases ha
  refine ⟨hfree, fun k => ?_, fun _ k p hp => ?_⟩
  · by_cases heq : k = key
    · subst heq
      refine ⟨fun a ha => ?_, fun p hp => ?_⟩
      · simp only [WorkerState.setPartition, Function.update_self, Option.some.injEq] at ha
        subst ha
        refine ⟨fun m hm => absurd hm List.not_mem_nil, [], .empty, fun p hp => ?_⟩
        simp only [WorkerState.setPartition, Function.update_self, Option.some.injEq] at hp
        subst hp
        refine ⟨[], rfl, .inr (.inr ?_)⟩
        unfold inHand waiting PartitionState.new
        simp [hphase, WorkerState.setPartition]
      · simp only [WorkerState.setPartition, Function.update_self, Option.some.injEq] at hp
        subst hp
        exact taskInv_none fun _ _ _ ht => by cases ht
    · refine keyInv_frame (h.keys k) (grows_of_eq rfl rfl rfl) (fun a ha => ?_) (fun p hp => ?_) rfl
      · simp only [WorkerState.setPartition, Function.update_of_ne heq] at ha
        exact ha
      · simp only [WorkerState.setPartition, Function.update_of_ne heq] at hp
        exact hp
  · simp only [WorkerState.setPartition] at hp ⊢
    by_cases heq : k = key
    · subst heq
      rw [Function.update_self]
      exact ⟨_, rfl⟩
    · rw [Function.update_of_ne heq] at hp ⊢
      exact h.assigned (by rw [hphase]; rfl) k p hp

/-- Nothing is at hand, unless a message is being dispatched. -/
theorem inHand_nil {s : WorkerState} (h : ∀ message, s.phase ≠ .dispatching message) (key : TopicPartition) :
    inHand s key = [] := by
  unfold inHand
  split
  · rename_i message hphase
    exact absurd hphase (h message)
  · rfl

theorem inv_step {settings : WorkerSettings} {s s' : WorkerState} {e : WorkerEvent} (hi : Inv settings s)
    (hs : (fraudWorker settings).step s e = some s') : Inv settings s' := by
  simp only [fraudWorker] at hs
  cases e with
  | stop =>
    cases hs
    exact inv_frame hi (grows_of_eq rfl rfl rfl) rfl rfl rfl
  | poll message =>
    simp only [workerStep] at hs
    split at hs
    · rename_i a hphase ha
      split at hs
      · rename_i hguard
        cases hs
        rw [Bool.and_eq_true, decide_eq_true_eq] at hguard
        exact inv_poll hi hphase ha hguard.2
      · cases hs
    · cases hs
  | pollNothing =>
    simp only [workerStep] at hs
    split at hs
    · rename_i hphase
      cases hs
      exact inv_loopHead hi hphase
    · cases hs
  | pollFails =>
    simp only [workerStep] at hs
    split at hs
    · rename_i hphase
      cases hs
      refine inv_shutdown hi.keys (inHand_nil fun message hm => ?_)
      rw [hphase] at hm
      cases hm
    · cases hs
  | dispatch =>
    simp only [workerStep] at hs
    split at hs
    · rename_i message hphase
      cases hs
      rw [loopHead_phase _ .polling]
      exact inv_loopHead (inv_dispatch hi hphase) rfl
    · cases hs
  | assign key =>
    simp only [workerStep] at hs
    split at hs
    · rename_i hphase hnone
      obtain ⟨hfree, hassigned⟩ := inv_assign hi hphase hnone
      split at hs
      · rename_i p hp
        rw [hfree] at hp
        cases hp
      · cases hs
        exact hassigned
    · cases hs
  | revoke keys lost =>
    simp only [workerStep] at hs
    split at hs
    · rename_i hphase
      cases hs
      refine ⟨fun key => keyInv_stop (hi.keys key) ?_ keys rfl, fun _ key p hp => ?_⟩
      · refine inHand_nil (fun message hm => ?_) key
        rw [hphase] at hm
        cases hm
      · simp only [WorkerState.stopPartitions] at hp ⊢
        split at hp
        · obtain ⟨q, hq, -⟩ := Option.map_eq_some_iff.mp hp
          exact hi.assigned (by rw [hphase]; rfl) key q hq
        · exact hi.assigned (by rw [hphase]; rfl) key p hp
    · cases hs
  | released commitFails =>
    simp only [workerStep] at hs
    split at hs
    · rename_i keys lost hphase
      split at hs
      · cases hs
        refine ⟨fun key => keyInv_frame (hi.keys key) (grows_of_eq rfl rfl rfl) (fun a ha => ?_) (fun p hp => ?_) ?_,
          fun _ key p hp => ?_⟩
        · simp only [WorkerState.unassign, WorkerState.popPartitions] at ha
          split at ha
          · cases ha
          · exact ha
        · simp only [WorkerState.unassign, WorkerState.popPartitions] at hp
          split at hp
          · cases hp
          · exact hp
        · unfold inHand
          rw [hphase]
        · simp only [WorkerState.unassign, WorkerState.popPartitions] at hp ⊢
          split at hp
          · cases hp
          · rename_i hkey
            rw [if_neg hkey]
            exact hi.assigned (by rw [hphase]; rfl) key p hp
      · cases hs
    · cases hs
  | releaseTimeout =>
    simp only [workerStep] at hs
    split at hs
    · rename_i keys lost hphase
      cases hs
      refine inv_shutdown (fun key => keyInv_frame (hi.keys key) (grows_of_eq rfl rfl rfl) (fun a ha => ?_) (fun p hp => hp) rfl)
        (inHand_nil fun message hm => ?_)
      · simp only [WorkerState.unassign] at ha
        split at ha
        · cases ha
        · exact ha
      · rw [show (s.unassign keys).phase = s.phase from rfl, hphase] at hm
        cases hm
    · cases hs
  | close =>
    simp only [workerStep] at hs
    split at hs
    · rename_i hphase
      split at hs
      · cases hs
        refine ⟨fun key => keyInv_frame (hi.keys key) (grows_of_eq rfl rfl rfl) (fun a ha => by cases ha) (fun p hp => ?_) ?_,
          fun hpolls => by cases hpolls⟩
        · simp only [WorkerState.popPartitions] at hp
          split at hp
          · cases hp
          · exact hp
        · unfold inHand
          rw [hphase]
      · cases hs
    · cases hs
  | autoCommit =>
    simp only [workerStep] at hs
    split at hs
    · cases hs
    · cases hs
      exact inv_frame hi (grows_of_eq rfl rfl rfl) rfl rfl rfl
  | commitElsewhere key offset =>
    cases hs
    exact inv_frame hi (grows_of_eq rfl rfl rfl) rfl rfl rfl
  | report record report =>
    simp only [workerStep] at hs
    obtain ⟨producer, hreport, rfl⟩ := Option.map_eq_some_iff.mp hs
    unfold Producer.report at hreport
    split at hreport
    · rename_i hnew
      cases hreport
      refine inv_frame hi ⟨fun _ hm => hm, fun _ hm => hm, fun _ _ hr => hr, fun r report' hr => ?_⟩ rfl rfl rfl
      dsimp only
      rw [Function.update_of_ne ?_]
      · exact hr
      · rintro rfl
        rw [hnew.2] at hr
        cases hr
    · cases hreport
  | task key event =>
    simp only [workerStep] at hs
    split at hs
    · cases hs
    · rename_i p hp
      exact inv_task hi hp hs

theorem inv_reachable {settings : WorkerSettings} {s : WorkerState} (h : (fraudWorker settings).Reachable s) : Inv settings s := by
  refine StepSystem.Reachable.invariant ?_ (fun s e s' hi hs => inv_step hi hs) h
  rintro _ ⟨committed, rfl⟩
  refine ⟨fun key => ⟨fun a ha => ?_, fun p hp => ?_⟩, fun _ key p hp => ?_⟩
  · cases ha
  · cases hp
  · cases hp

end DeliveryAux

open DeliveryAux

/-- No message is lost: when an offset is stored, every message below it that was delivered since the partition was assigned has been
processed, or its dead letter has been acknowledged; and the offsets that are stored increase. -/
theorem stored_offsets_safe {settings : WorkerSettings} {s : WorkerState} (h : (fraudWorker settings).Reachable s)
    {key : TopicPartition} {a : Assignment} (ha : s.assigned key = some a) :
    a.storedOffsets.Pairwise (· < ·) ∧
      ∀ offset ∈ a.storedOffsets, ∀ message ∈ a.delivered, message.offset < offset → s.Handled message := by
  obtain ⟨-, pending, horder, -⟩ := ((inv_reachable h).keys key).assignment a ha
  exact ⟨horder.marks_increase, fun offset ho message hm hlt => horder.covered ho hm hlt⟩

namespace DeliveryExample

open HandlingExample

/-- The partition of the messages. -/
def key : TopicPartition := ("transactions", 0)

/-- A message at the next offset. -/
def next : Message := ⟨"transactions", 0, 8, none, none, none⟩

/-- The first of two messages is processed. The second one is refused, its dead letter is published, and its partition is revoked
meanwhile. -/
def workerEvents : List WorkerEvent := [
  .assign key, .task key .begin, .poll message, .dispatch, .task key .get, .poll next, .dispatch,
  .task key (.processed (.ok ()) none random), .task key (.finish false), .task key .get,
  .task key (.processed (.error (.error .invalidEventError)) none random), .task key (.produce none random),
  .revoke [key] false, .report 0 .stored, .task key (.publication .settle random), .task key (.publication .flushed random),
  .task key (.publication .delivered random), .task key (.finish false)]

theorem worker_run : ((fraudWorker settings).run (.subscribed fun _ => 0) workerEvents).map
    (fun s => (s.assigned key).map fun a => (a.delivered, a.storedOffsets)) = some (some ([message, next], [8, 9])) := rfl

end DeliveryExample

open DeliveryExample HandlingExample in
/-- Both messages are handled when the second offset is stored. -/
theorem stored_offsets_safe_revoked :
    ∃ s a, (fraudWorker settings).Reachable s ∧ s.assigned key = some a ∧ a.storedOffsets = [8, 9] ∧ s.Handled message ∧
      s.Handled next := by
  obtain ⟨s, hs, hrun⟩ := Option.map_eq_some_iff.mp worker_run
  obtain ⟨a, ha, heq⟩ := Option.map_eq_some_iff.mp hrun
  have hreach : (fraudWorker settings).Reachable s := StepSystem.Reachable.run (.start ⟨_, rfl⟩) hs
  have hdelivered : a.delivered = [message, next] := congrArg Prod.fst heq
  have hstored : a.storedOffsets = [8, 9] := congrArg Prod.snd heq
  obtain ⟨-, hhandled⟩ := stored_offsets_safe hreach ha
  rw [hstored, hdelivered] at hhandled
  exact ⟨s, a, hreach, ha, hstored, hhandled 9 (by decide) message (by simp) (by decide),
    hhandled 9 (by decide) next (by simp) (by decide)⟩

end FraudDetection
