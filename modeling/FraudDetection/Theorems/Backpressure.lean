import FraudDetection.Lib.Watermark
import FraudDetection.Theorems.Delivery
import FraudDetection.Theorems.Retry

/-!
# Backpressure

The queue of a partition is a queue with two watermarks: `poll` returns no message of a paused partition, so `_dispatch` puts nothing
into its queue. Its consumer is the partition's task, which is gone once an exception has left `_handle`.
-/

namespace FraudDetection

open Watermark

/-- Where the task of a partition is, as the consumer of its queue. -/
def TaskPhase.consumer : TaskPhase → Consumer
  | .created | .getting => .idle
  | .handling _ _ _ => .busy
  | .ended => .gone

/-- The queue of a partition. -/
def PartitionState.level (p : PartitionState) : Level := ⟨p.queue.length, p.paused, p.task.consumer⟩

/-- `worker_partition_high_watermark // 2`. -/
def WorkerSettings.partitionLowWatermark (settings : WorkerSettings) : ℕ := settings.partitionHighWatermark / 2

/-- Backpressure is bounded and does not stall: of a partition, what `_PartitionState` and the consumer say of it. -/
structure Backpressure (settings : WorkerSettings) (s : WorkerState) (key : TopicPartition) (p : PartitionState) : Prop where
  bounded : p.queue.length ≤ settings.partitionHighWatermark
  paused : ∃ a, s.assigned key = some a ∧ p.paused = a.paused
  notStalled : ¬(p.paused = true ∧ p.queue = [] ∧ ∀ message h publication, p.task ≠ .handling message h publication)

/-- No exception ends the task of a paused partition that is not stopping, where the high watermark is one. -/
def TaskGoesOn (settings : WorkerSettings) (s : WorkerState) : WorkerEvent → Prop
  | .task key (.finish _) => settings.partitionHighWatermark = 1 → ∀ p message h publication, s.partitions key = some p →
      p.stopping = false → p.paused = true → p.task = .handling message h publication → ∀ error, h.phase ≠ .raised error
  | _ => True

namespace BackpressureAux

theorem low_lt (settings : WorkerSettings) : settings.partitionLowWatermark < settings.partitionHighWatermark :=
  Nat.div_lt_self settings.watermark_ok (by decide)

/-! ## The invariant -/

/-- What holds of a partition that is not stopping. Only `_stop_partitions` puts a `None` into a queue. -/
structure PartitionOk (settings : WorkerSettings) (s : WorkerState) (key : TopicPartition) (p : PartitionState) : Prop where
  paused : ∃ a, s.assigned key = some a ∧ p.paused = a.paused
  messages : none ∉ p.queue
  level : p.level.Ok settings.partitionHighWatermark settings.partitionLowWatermark

/-- What holds in every reachable state. -/
structure BackpressureInv (settings : WorkerSettings) (s : WorkerState) : Prop where
  held : ∀ key p, s.partitions key = some p → key ∈ s.held
  stopped : ∀ key p, s.partitions key = some p → s.draining key = true → p.stopping = true
  /-- `poll` has returned a message of a partition that was not paused. -/
  inHand : ∀ message p, s.phase = .dispatching message → s.partitions message.topicPartition = some p → p.stopping = false →
    p.paused = false
  partitions : ∀ key p, s.partitions key = some p → p.stopping = false → PartitionOk settings s key p

/-! ## Steps of a task -/

/-- What a step of the task of a partition leaves alone. -/
structure TaskFrame (s s' : WorkerState) (key : TopicPartition) (p p' : PartitionState) : Prop where
  partitions : s'.partitions = Function.update s.partitions key (some p')
  others : ∀ k, k ≠ key → s'.assigned k = s.assigned k
  phase : s'.phase = s.phase
  held : s'.held = s.held
  stopping : p'.stopping = p.stopping

/-- What a step of the task of a partition that is not stopping does to its queue. -/
inductive QueueStep (settings : WorkerSettings) (s s' : WorkerState) (key : TopicPartition) (p p' : PartitionState)
    (event : TaskEvent) : Prop where
  | keep (ha : s'.assigned = s.assigned) (hp : p'.paused = p.paused) (hq : p'.queue = p.queue)
      (hc : p'.task.consumer = p.task.consumer)
  | take (message : Option Message) (ha : s'.assigned = s.assigned) (hp : p'.paused = p.paused) (hq : p.queue = message :: p'.queue)
      (hc : p.task.consumer = .idle) (hc' : message ≠ none → p'.task.consumer = .busy)
  | finish (ha : (s'.assigned key).map (·.paused) = (s.assigned key).map fun a => a.paused &&
        !(p.paused && decide (p.queue.length ≤ settings.partitionLowWatermark)))
      (hp : p'.paused = (p.paused && decide (settings.partitionLowWatermark < p.queue.length))) (hq : p'.queue = p.queue)
      (hc : p'.task.consumer = .idle)
  | leave (message : Message) (h : Handling) (publication : Option Publication) (storeFails : Bool)
      (he : event = .finish storeFails) (ht : p.task = .handling message h publication) (error : HandlingError)
      (hr : h.phase = .raised error) (ha : s'.assigned = s.assigned) (hp' : p' = { p with task := .ended })

theorem frame_setPartition (s : WorkerState) (key : TopicPartition) {p p' : PartitionState} (h : p'.stopping = p.stopping) :
    TaskFrame s (s.setPartition key p') key p p' := ⟨rfl, fun _ _ => rfl, rfl, rfl, h⟩

/-- The stored offsets of an assignment say nothing of its pause. -/
theorem storeOffset_assigned (s : WorkerState) (key : TopicPartition) (offset : ℕ) :
    (((s.storeOffset key offset).assigned key).map (·.paused) = (s.assigned key).map (·.paused)) ∧
      ∀ k, k ≠ key → (s.storeOffset key offset).assigned k = s.assigned k := by
  unfold WorkerState.storeOffset WorkerState.modifyAssignment
  refine ⟨?_, fun k hk => Function.update_of_ne hk _ _⟩
  dsimp only
  rw [Function.update_self]
  cases s.assigned key <;> rfl

/-- A pass ends, after the offset was stored or not. -/
theorem endPass_step {settings : WorkerSettings} {s stored : WorkerState} {key : TopicPartition} {p : PartitionState}
    {event : TaskEvent} (hpartitions : stored.partitions = s.partitions) (hphase : stored.phase = s.phase)
    (hheld : stored.held = s.held) (hkey : (stored.assigned key).map (·.paused) = (s.assigned key).map (·.paused))
    (hothers : ∀ k, k ≠ key → stored.assigned k = s.assigned k) :
    ∃ p', TaskFrame s (stored.endPass settings key p) key p p' ∧
      (p.stopping = false → QueueStep settings s (stored.endPass settings key p) key p p' event) := by
  have hhead : ∀ q : PartitionState, q.loopHead.stopping = q.stopping ∧ q.loopHead.paused = q.paused ∧
      q.loopHead.queue = q.queue := fun q => ⟨rfl, rfl, rfl⟩
  have hidle : ∀ q : PartitionState, q.stopping = false → q.loopHead.task.consumer = .idle := by
    intro q hq
    unfold PartitionState.loopHead
    rw [hq]
    rfl
  unfold WorkerState.endPass
  split
  · rename_i hresume
    obtain ⟨hpaused, hlen⟩ := Bool.and_eq_true_iff.mp hresume
    have hlow : ¬settings.partitionLowWatermark < p.queue.length := not_lt.mpr (of_decide_eq_true hlen)
    refine ⟨{ p with paused := false }.loopHead, ⟨?_, ?_, hphase, hheld, rfl⟩, fun hstop => .finish ?_ ?_ rfl (hidle _ hstop)⟩
    · unfold WorkerState.setPartition WorkerState.setPaused WorkerState.modifyAssignment
      dsimp only
      rw [hpartitions]
    · intro k hk
      unfold WorkerState.setPartition WorkerState.setPaused WorkerState.modifyAssignment
      exact (Function.update_of_ne hk _ _).trans (hothers k hk)
    · unfold WorkerState.setPartition WorkerState.setPaused WorkerState.modifyAssignment
      dsimp only
      rw [Function.update_self]
      have hle : decide (p.queue.length ≤ settings.partitionLowWatermark) = true := hlen
      cases hs : s.assigned key with
      | none =>
        rw [hs] at hkey
        cases ha : stored.assigned key with
        | none => rfl
        | some a => rw [ha] at hkey; nomatch hkey
      | some a' =>
        rw [hs] at hkey
        cases ha : stored.assigned key with
        | none => rw [ha] at hkey; nomatch hkey
        | some a => simp [hpaused, hle]
    · simp [hlow, PartitionState.loopHead]
  · rename_i hresume
    have hresume : (p.paused && decide (p.queue.length ≤ settings.partitionLowWatermark)) = false := Bool.eq_false_iff.mpr hresume
    refine ⟨p.loopHead, ⟨?_, hothers, hphase, hheld, rfl⟩, fun hstop => .finish ?_ ?_ rfl (hidle _ hstop)⟩
    · unfold WorkerState.setPartition
      dsimp only
      rw [hpartitions]
    · rw [hresume]
      simp only [Bool.not_false, Bool.and_true]
      exact hkey
    · cases hp : p.paused with
      | false => simpa [PartitionState.loopHead] using hp
      | true =>
        rw [hp, Bool.true_and] at hresume
        have hlt : settings.partitionLowWatermark < p.queue.length := not_le.mp (of_decide_eq_false hresume)
        simpa [PartitionState.loopHead, hlt] using hp

/-- A step of the task of a partition. -/
theorem task_cases {settings : WorkerSettings} {s s' : WorkerState} {key : TopicPartition} {p : PartitionState}
    {event : TaskEvent} (hs : taskStep settings s key p event = some s') : ∃ p', TaskFrame s s' key p p' ∧
      (p.stopping = false → s.draining key = false → QueueStep settings s s' key p p' event) := by
  -- `_handle` goes on, and the queue is left alone
  have hgoes : ∀ {message : Message} {h h' : Handling} {call call' : Option Publication} (t : WorkerState),
      p.task = .handling message h call → t.partitions = Function.update s.partitions key (some { p with task := .handling message h' call' }) →
      t.assigned = s.assigned → t.phase = s.phase → t.held = s.held → ∃ p', TaskFrame s t key p p' ∧
        (p.stopping = false → s.draining key = false → QueueStep settings s t key p p' event) := by
    intro message h h' call call' t ht hpartitions hassigned hphase hheld
    refine ⟨_, ⟨hpartitions, fun k _ => by rw [hassigned], hphase, hheld, rfl⟩, fun _ _ => .keep hassigned rfl rfl ?_⟩
    rw [ht]
    rfl
  cases event with
  | begin =>
    simp only [taskStep] at hs
    split at hs
    · rename_i ht
      cases hs
      refine ⟨p.loopHead, frame_setPartition s key rfl, fun hstop _ => .keep rfl rfl rfl ?_⟩
      unfold PartitionState.loopHead
      rw [ht, hstop]
      rfl
    · cases hs
  | get =>
    simp only [taskStep] at hs
    split at hs
    · rename_i queue ht hq
      cases hs
      exact ⟨_, frame_setPartition s key rfl, fun _ _ => .take none rfl rfl hq (by rw [ht]; rfl) fun h => absurd rfl h⟩
    · rename_i message queue ht hq
      split at hs
      · rename_i hstop
        cases hs
        exact ⟨_, frame_setPartition s key rfl, fun hgoing _ => absurd hstop (by rw [hgoing]; exact Bool.false_ne_true)⟩
      · cases hs
        exact ⟨_, frame_setPartition s key rfl, fun _ _ => .take (some message) rfl rfl hq (by rw [ht]; rfl) fun _ => rfl⟩
    · cases hs
  | processed result correlationId random =>
    simp only [taskStep] at hs
    split at hs
    · rename_i message h ht
      obtain ⟨h', -, rfl⟩ := Option.map_eq_some_iff.mp hs
      exact hgoes _ ht rfl rfl rfl rfl
    · cases hs
  | wake =>
    simp only [taskStep] at hs
    split at hs
    · rename_i message h ht
      obtain ⟨h', -, rfl⟩ := Option.map_eq_some_iff.mp hs
      exact hgoes _ ht rfl rfl rfl rfl
    · cases hs
  | produce error random =>
    simp only [taskStep] at hs
    split at hs
    · rename_i message h ht
      split at hs
      · split at hs
        · cases hs
          exact hgoes _ ht rfl rfl rfl rfl
        · obtain ⟨h', -, rfl⟩ := Option.map_eq_some_iff.mp hs
          exact hgoes _ ht rfl rfl rfl rfl
      · cases hs
    · cases hs
  | publication publicationEvent random =>
    simp only [taskStep] at hs
    split at hs
    · rename_i message h publication ht
      split at hs
      · cases hs
      · cases hs
        exact hgoes _ ht rfl rfl rfl rfl
      · obtain ⟨h', -, rfl⟩ := Option.map_eq_some_iff.mp hs
        exact hgoes _ ht rfl rfl rfl rfl
    · cases hs
  | finish storeFails =>
    simp only [taskStep] at hs
    split at hs
    · rename_i message h publication ht
      split at hs
      · rename_i handled hr
        cases hs
        obtain ⟨hkey, hothers⟩ := storeOffset_assigned s key (message.offset + 1)
        have hend : ∀ stored : WorkerState, (stored = s ∨ stored = s.storeOffset key (message.offset + 1)) →
            ∃ p', TaskFrame s (stored.endPass settings key p) key p p' ∧ (p.stopping = false → s.draining key = false →
              QueueStep settings s (stored.endPass settings key p) key p p' (.finish storeFails)) := by
          rintro stored (rfl | rfl)
          · obtain ⟨p', hframe, hstep⟩ :=
              @endPass_step settings stored stored key p (.finish storeFails) rfl rfl rfl rfl fun _ _ => rfl
            exact ⟨p', hframe, fun hstop _ => hstep hstop⟩
          · obtain ⟨p', hframe, hstep⟩ :=
              @endPass_step settings s (s.storeOffset key (message.offset + 1)) key p (.finish storeFails) rfl rfl rfl hkey hothers
            exact ⟨p', hframe, fun hstop _ => hstep hstop⟩
        exact hend _ (by split <;> simp)
      · rename_i error hr
        cases hs
        exact ⟨_, frame_setPartition s key rfl, fun _ _ => .leave message h publication storeFails rfl ht error hr rfl rfl⟩
      · cases hs
    · cases hs
  | cancel =>
    simp only [taskStep] at hs
    split at hs
    · rename_i hdraining
      have hnot : ∀ {q : PartitionState} {t : WorkerState}, p.stopping = false → s.draining key = false →
          QueueStep settings s t key p q .cancel :=
        fun _ hd => absurd hdraining (by rw [hd]; exact Bool.false_ne_true)
      split at hs
      · cases hs
        exact ⟨_, frame_setPartition s key rfl, hnot⟩
      · cases hs
        exact ⟨_, frame_setPartition s key rfl, hnot⟩
      · rename_i message h publication ht
        obtain ⟨h', -, rfl⟩ := Option.map_eq_some_iff.mp hs
        exact ⟨_, frame_setPartition s key rfl, hnot⟩
      · cases hs
    · cases hs

/-! ## Steps keep the invariant -/

/-- Only the pause of an assignment matters. -/
theorem partitionOk_of {settings : WorkerSettings} {s s' : WorkerState} {key : TopicPartition} {p : PartitionState}
    (h : PartitionOk settings s key p) (ha : (s'.assigned key).map (·.paused) = (s.assigned key).map (·.paused)) :
    PartitionOk settings s' key p := by
  refine ⟨?_, h.messages, h.level⟩
  obtain ⟨a, hassigned, hpaused⟩ := h.paused
  rw [hassigned] at ha
  obtain ⟨a', ha', heq⟩ := Option.map_eq_some_iff.mp ha
  exact ⟨a', ha', hpaused.trans heq.symm⟩

/-- A step of the task of a partition that is not stopping keeps what holds of it. -/
theorem partitionOk_step {settings : WorkerSettings} {s s' : WorkerState} {key : TopicPartition} {p p' : PartitionState}
    {event : TaskEvent} (h : PartitionOk settings s key p) (hp : s.partitions key = some p) (hstop : p.stopping = false)
    (hg : TaskGoesOn settings s (.task key event)) (hs : QueueStep settings s s' key p p' event) : PartitionOk settings s' key p' := by
  cases hs with
  | keep ha hpaused hq hc =>
    have hlevel : p'.level = p.level := by
      unfold PartitionState.level
      rw [hpaused, hq, hc]
    refine ⟨?_, hq ▸ h.messages, hlevel ▸ h.level⟩
    rw [ha, hpaused]
    exact h.paused
  | take message ha hpaused hq hc hc' =>
    have hmessages := h.messages
    rw [hq, List.mem_cons, not_or] at hmessages
    have hlevel : p'.level = p.level.take := by
      unfold PartitionState.level Level.take
      rw [hpaused, hq, hc' (Ne.symm hmessages.1)]
      rfl
    refine ⟨?_, hmessages.2, hlevel ▸ Level.ok_take h.level hc⟩
    rw [ha, hpaused]
    exact h.paused
  | finish ha hpaused hq hc =>
    have hlevel : p'.level = p.level.finish settings.partitionLowWatermark := by
      unfold PartitionState.level Level.finish
      rw [hpaused, hq, hc]
    refine ⟨?_, hq ▸ h.messages, hlevel ▸ Level.ok_finish (low_lt settings) h.level⟩
    obtain ⟨a, hassigned, heq⟩ := h.paused
    rw [hassigned] at ha
    obtain ⟨a', ha', heq'⟩ := Option.map_eq_some_iff.mp ha
    refine ⟨a', ha', ?_⟩
    rw [heq', hpaused]
    dsimp only
    rw [← heq]
    cases p.paused with
    | false => rfl
    | true => simp [← decide_not]
  | leave message handling publication storeFails he ht error hr ha hp' =>
    subst hp' he
    refine ⟨by rw [ha]; exact h.paused, h.messages, Level.ok_leave h.level fun hpaused => ?_⟩
    have hbusy : p.level.consumer = .busy := by
      unfold PartitionState.level
      rw [ht]
      rfl
    have hnotOne : settings.partitionHighWatermark ≠ 1 :=
      fun hone => hg hone p message handling publication hp hstop hpaused ht error hr
    have hhigh := settings.watermark_ok
    exact h.level.pos_of_busy hbusy (Nat.div_pos (by omega) (by decide)) hpaused

/-- A step of a task keeps the invariant. -/
theorem inv_task {settings : WorkerSettings} {s s' : WorkerState} {key : TopicPartition} {p : PartitionState} {event : TaskEvent}
    (h : BackpressureInv settings s) (hp : s.partitions key = some p) (hg : TaskGoesOn settings s (.task key event))
    (hs : taskStep settings s key p event = some s') : BackpressureInv settings s' := by
  obtain ⟨p', hframe, hqueue⟩ := task_cases hs
  have hdraining : ∀ k, s'.draining k = s.draining k := by
    intro k
    unfold WorkerState.draining
    rw [hframe.phase, hframe.held]
  have hpart : ∀ {k q}, s'.partitions k = some q → (k = key ∧ q = p') ∨ (k ≠ key ∧ s.partitions k = some q) := by
    intro k q hq
    rw [hframe.partitions] at hq
    rcases StepSystem.update_cases hq with ⟨rfl, hnew⟩ | ⟨heq, hq⟩
    · exact .inl ⟨rfl, (Option.some.inj hnew).symm⟩
    · exact .inr ⟨heq, hq⟩
  refine ⟨fun k q hq => ?_, fun k q hq hd => ?_, fun message q hphase hq hstop => ?_, fun k q hq hstop => ?_⟩
  · rw [hframe.held]
    rcases hpart hq with ⟨rfl, -⟩ | ⟨-, hq⟩
    · exact h.held k p hp
    · exact h.held k q hq
  · rw [hdraining] at hd
    rcases hpart hq with ⟨rfl, rfl⟩ | ⟨-, hq⟩
    · rw [hframe.stopping]
      exact h.stopped k p hp hd
    · exact h.stopped k q hq hd
  · rw [hframe.phase] at hphase
    rcases hpart hq with ⟨heq, rfl⟩ | ⟨-, hq⟩
    · rw [hframe.stopping] at hstop
      have hpaused := h.inHand message p hphase (heq ▸ hp) hstop
      have hd : s.draining key = false := by
        unfold WorkerState.draining
        rw [hphase]
      cases hqueue hstop hd with
      | keep _ hkeep => rw [hkeep, hpaused]
      | take _ _ hkeep => rw [hkeep, hpaused]
      | finish _ hresume => rw [hresume, hpaused, Bool.false_and]
      | leave _ _ _ _ _ _ _ _ _ hleft => rw [hleft, hpaused]
    · exact h.inHand message q hphase hq hstop
  · rcases hpart hq with ⟨rfl, rfl⟩ | ⟨hne, hq⟩
    · rw [hframe.stopping] at hstop
      have hd : s.draining k = false := Bool.eq_false_iff.mpr fun hd => by
        have := h.stopped k p hp hd
        rw [hstop] at this
        exact absurd this Bool.false_ne_true
      exact partitionOk_step (h.partitions k p hp hstop) hp hstop hg (hqueue hstop hd)
    · exact partitionOk_of (h.partitions k q hq hstop) (by rw [hframe.others k hne])

/-- A change that neither partitions nor pauses see. -/
theorem inv_frame {settings : WorkerSettings} {s s' : WorkerState} (h : BackpressureInv settings s)
    (hpartitions : s'.partitions = s.partitions) (hassigned : s'.assigned = s.assigned) (hphase : s'.phase = s.phase)
    (hheld : s'.held = s.held) : BackpressureInv settings s' := by
  refine ⟨fun k q hq => ?_, fun k q hq hd => ?_, fun message q hm hq hstop => ?_, fun k q hq hstop => ?_⟩
  · rw [hheld]
    exact h.held k q (hpartitions ▸ hq)
  · unfold WorkerState.draining at hd
    rw [hphase, hheld] at hd
    exact h.stopped k q (hpartitions ▸ hq) hd
  · exact h.inHand message q (hphase ▸ hm) (hpartitions ▸ hq) hstop
  · exact partitionOk_of (h.partitions k q (hpartitions ▸ hq) hstop) (by rw [hassigned])

/-- `_shutdown` begins: every partition is told to stop. -/
theorem inv_shutdown {settings : WorkerSettings} {s : WorkerState} (h : ∀ key p, s.partitions key = some p → key ∈ s.held) :
    BackpressureInv settings s.shutdown := by
  have hstopped : ∀ key p, s.shutdown.partitions key = some p → key ∈ s.held ∧ p.stopping = true := by
    intro key p hp
    simp only [WorkerState.shutdown, WorkerState.stopPartitions] at hp
    split at hp
    · rename_i hkey
      obtain ⟨q, -, rfl⟩ := Option.map_eq_some_iff.mp hp
      exact ⟨hkey, rfl⟩
    · rename_i hkey
      exact absurd (h key p hp) hkey
  refine ⟨fun key p hp => (hstopped key p hp).1, fun key p hp _ => (hstopped key p hp).2, fun _ _ hphase => ?_,
    fun key p hp hstop => ?_⟩
  · cases hphase
  · rw [(hstopped key p hp).2] at hstop
    cases hstop

/-- The head of the loop. -/
theorem inv_loopHead {settings : WorkerSettings} {s : WorkerState} (hheld : ∀ key p, s.partitions key = some p → key ∈ s.held)
    (hpartitions : ∀ key p, s.partitions key = some p → p.stopping = false → PartitionOk settings s key p) :
    BackpressureInv settings s.loopHead := by
  unfold WorkerState.loopHead
  split
  · refine ⟨hheld, fun key p hp hd => ?_, fun _ _ hphase => ?_, fun key p hp hstop => ?_⟩
    · cases hd
    · cases hphase
    · exact partitionOk_of (hpartitions key p hp hstop) rfl
  · exact inv_shutdown hheld

/-- A message is put into the queue of its partition, or dropped. -/
theorem inv_dispatch {settings : WorkerSettings} {s : WorkerState} {message : Message} (h : BackpressureInv settings s)
    (hphase : s.phase = .dispatching message) : BackpressureInv settings (s.dispatch settings message).loopHead := by
  unfold WorkerState.dispatch
  dsimp only
  split
  · exact inv_loopHead h.held h.partitions
  rename_i p hp
  split
  · exact inv_loopHead h.held h.partitions
  rename_i hstop
  have hstop : p.stopping = false := Bool.eq_false_iff.mpr hstop
  have hunpaused := h.inHand message p hphase hp hstop
  have hok := h.partitions _ p hp hstop
  -- the partition with the message in its queue, and paused or not
  have hput : ∀ paused, paused = decide (settings.partitionHighWatermark ≤ (p.queue ++ [some message]).length) →
      ({ p with queue := p.queue ++ [some message], paused } : PartitionState).level = p.level.put settings.partitionHighWatermark := by
    intro paused heq
    unfold PartitionState.level Level.put
    rw [hunpaused, Bool.false_or, heq, List.length_append]
    rfl
  have hmessages : none ∉ p.queue ++ [some message] := by simpa using hok.messages
  have hother : ∀ {t : WorkerState} {p' : PartitionState}, t.held = s.held →
      t.partitions = Function.update s.partitions message.topicPartition (some p') →
      (∀ k, k ≠ message.topicPartition → t.assigned k = s.assigned k) → PartitionOk settings t message.topicPartition p' →
      BackpressureInv settings t.loopHead := by
    intro t p' hheld hpartitions hassigned hp'
    refine inv_loopHead (fun key q hq => ?_) fun key q hq hstop => ?_
    · rw [hheld]
      rw [hpartitions] at hq
      by_cases heq : key = message.topicPartition
      · exact h.held key p (heq ▸ hp)
      · rw [Function.update_of_ne heq] at hq
        exact h.held key q hq
    · rw [hpartitions] at hq
      rcases StepSystem.update_cases hq with ⟨rfl, hnew⟩ | ⟨heq, hq⟩
      · cases hnew
        exact hp'
      · exact partitionOk_of (h.partitions key q hq hstop) (by rw [hassigned key heq])
  split
  · rename_i hfull
    have hfull := (Bool.and_eq_true_iff.mp hfull).2
    refine hother rfl rfl (fun k hk => Function.update_of_ne hk _ _) ⟨?_, hmessages, hput true hfull.symm ▸ ?_⟩
    · obtain ⟨a, ha, -⟩ := hok.paused
      refine ⟨{ a with paused := true }, ?_, rfl⟩
      unfold WorkerState.setPartition WorkerState.setPaused WorkerState.modifyAssignment
      dsimp only
      rw [Function.update_self, ha]
      rfl
    · exact Level.ok_put (low_lt settings) hok.level hunpaused
  · rename_i hroom
    rw [hunpaused, Bool.not_false, Bool.true_and] at hroom
    have hroom := Bool.eq_false_iff.mpr hroom
    have hlevel := hput p.paused (hunpaused.trans hroom.symm)
    exact hother rfl rfl (fun _ _ => rfl) ⟨hok.paused, hmessages, hlevel ▸ Level.ok_put (low_lt settings) hok.level hunpaused⟩

/-- `poll` returns a message of a partition that is not paused. -/
theorem inv_poll {settings : WorkerSettings} {s : WorkerState} {message : Message} {a : Assignment}
    (h : BackpressureInv settings s) (ha : s.assigned message.topicPartition = some a) (hpaused : a.paused = false) :
    BackpressureInv settings { s.modifyAssignment message.topicPartition (fun a =>
      { a with position := message.offset + 1, delivered := a.delivered ++ [message] }) with phase := .dispatching message } := by
  refine ⟨h.held, fun key p hp hd => ?_, fun m p hphase hp hstop => ?_, fun key p hp hstop => ?_⟩
  · cases hd
  · cases hphase
    obtain ⟨a', ha', heq⟩ := (h.partitions _ p hp hstop).paused
    rw [ha] at ha'
    cases ha'
    rw [heq, hpaused]
  · refine partitionOk_of (h.partitions key p hp hstop) ?_
    simp only [WorkerState.modifyAssignment]
    by_cases heq : key = message.topicPartition
    · subst heq
      rw [Function.update_self, ha]
      rfl
    · rw [Function.update_of_ne heq]

/-- A partition is assigned, and starts unpaused. -/
theorem inv_assign {settings : WorkerSettings} {s s' : WorkerState} {key : TopicPartition} (h : BackpressureInv settings s)
    (hs : workerStep settings s (.assign key) = some s') : BackpressureInv settings s' := by
  simp only [workerStep] at hs
  split at hs
  swap
  · cases hs
  rename_i hphase hnone
  -- what is assigned to other partitions stays
  have hother : ∀ k, k ≠ key → ∀ p, PartitionOk settings s k p → ∀ {t : WorkerState}, t.assigned =
      Function.update s.assigned key (some ⟨s.committed key, false, [], []⟩) → PartitionOk settings t k p := by
    intro k hk p hok t ht
    exact partitionOk_of hok (by rw [ht, Function.update_of_ne hk])
  split at hs
  · rename_i p hp
    cases hs
    refine ⟨h.held, h.stopped, h.inHand, fun k q hq hstop => ?_⟩
    have hok := h.partitions k q hq hstop
    have hk : k ≠ key := by
      rintro rfl
      obtain ⟨a, ha, -⟩ := hok.paused
      rw [hnone] at ha
      cases ha
    exact hother k hk q hok rfl
  · cases hs
    refine ⟨fun k q hq => ?_, fun k q hq hd => ?_, fun m q hm => ?_, fun k q hq hstop => ?_⟩
    · simp only [WorkerState.setPartition] at hq
      by_cases heq : k = key
      · exact List.mem_append_right _ (by simp [heq])
      · rw [Function.update_of_ne heq] at hq
        exact List.mem_append_left _ (h.held k q hq)
    · simp only [WorkerState.draining, WorkerState.setPartition, hphase] at hd
      cases hd
    · simp only [WorkerState.setPartition, hphase] at hm
      cases hm
    · simp only [WorkerState.setPartition] at hq
      rcases StepSystem.update_cases hq with ⟨rfl, hnew⟩ | ⟨heq, hq⟩
      · cases hnew
        exact ⟨⟨_, Function.update_self .., rfl⟩, List.not_mem_nil, Level.ok_empty (low_lt settings) _⟩
      · exact hother k heq q (h.partitions k q hq hstop) rfl

/-- The partitions that are revoked are told to stop. -/
theorem inv_revoke {settings : WorkerSettings} {s : WorkerState} (h : BackpressureInv settings s) (keys : List TopicPartition)
    (lost : Bool) : BackpressureInv settings { s.stopPartitions keys with phase := .releasing keys lost } := by
  have hpart : ∀ {k q}, (s.stopPartitions keys).partitions k = some q →
      (k ∈ keys ∧ q.stopping = true ∧ ∃ p, s.partitions k = some p) ∨ (k ∉ keys ∧ s.partitions k = some q) := by
    intro k q hq
    simp only [WorkerState.stopPartitions] at hq
    split at hq
    · rename_i hk
      obtain ⟨p, hp, rfl⟩ := Option.map_eq_some_iff.mp hq
      exact .inl ⟨hk, rfl, p, hp⟩
    · rename_i hk
      exact .inr ⟨hk, hq⟩
  refine ⟨fun k q hq => ?_, fun k q hq hd => ?_, fun m q hm => ?_, fun k q hq hstop => ?_⟩
  · rcases hpart hq with ⟨-, -, p, hp⟩ | ⟨-, hq⟩
    · exact h.held k p hp
    · exact h.held k q hq
  · rcases hpart hq with ⟨-, hstop, -⟩ | ⟨hk, -⟩
    · exact hstop
    · exact absurd (of_decide_eq_true hd) hk
  · cases hm
  · rcases hpart hq with ⟨-, hstopped, -⟩ | ⟨-, hq⟩
    · rw [hstopped] at hstop
      cases hstop
    · exact partitionOk_of (h.partitions k q hq hstop) rfl

/-- The partitions that are released are the worker's and the consumer's no more. -/
theorem inv_released {settings : WorkerSettings} {s : WorkerState} (h : BackpressureInv settings s) (keys : List TopicPartition)
    (committed : TopicPartition → ℕ) :
    BackpressureInv settings { (s.popPartitions keys).unassign keys with committed := committed, phase := .polling } := by
  have hpart : ∀ {k q}, ((s.popPartitions keys).unassign keys).partitions k = some q → k ∉ keys ∧ s.partitions k = some q := by
    intro k q hq
    simp only [WorkerState.unassign, WorkerState.popPartitions] at hq
    split at hq
    · cases hq
    · rename_i hk
      exact ⟨hk, hq⟩
  refine ⟨fun k q hq => ?_, fun k q hq hd => ?_, fun m q hm => ?_, fun k q hq hstop => ?_⟩
  · obtain ⟨hk, hq⟩ := hpart hq
    exact List.mem_filter.mpr ⟨h.held k q hq, decide_eq_true hk⟩
  · cases hd
  · cases hm
  · obtain ⟨hk, hq⟩ := hpart hq
    refine partitionOk_of (h.partitions k q hq hstop) ?_
    simp only [WorkerState.unassign, WorkerState.popPartitions, if_neg hk]

/-- A step that meets the condition keeps the invariant. -/
theorem inv_step {settings : WorkerSettings} {s s' : WorkerState} {e : WorkerEvent} (h : BackpressureInv settings s)
    (hg : TaskGoesOn settings s e) (hs : (fraudWorker settings).step s e = some s') : BackpressureInv settings s' := by
  simp only [fraudWorker] at hs
  cases e with
  | stop =>
    cases hs
    exact inv_frame h rfl rfl rfl rfl
  | poll message =>
    simp only [workerStep] at hs
    split at hs
    · rename_i a hphase ha
      split at hs
      · rename_i hguard
        cases hs
        rw [Bool.and_eq_true, Bool.not_eq_true'] at hguard
        exact inv_poll h ha hguard.1
      · cases hs
    · cases hs
  | pollNothing =>
    simp only [workerStep] at hs
    split at hs
    · cases hs
      exact inv_loopHead h.held h.partitions
    · cases hs
  | pollFails =>
    simp only [workerStep] at hs
    split at hs
    · cases hs
      exact inv_shutdown h.held
    · cases hs
  | dispatch =>
    simp only [workerStep] at hs
    split at hs
    · rename_i message hphase
      cases hs
      exact inv_dispatch h hphase
    · cases hs
  | assign key => exact inv_assign h hs
  | revoke keys lost =>
    simp only [workerStep] at hs
    split at hs
    · cases hs
      exact inv_revoke h keys lost
    · cases hs
  | released commitFails =>
    simp only [workerStep] at hs
    split at hs
    · split at hs
      · cases hs
        exact inv_released h _ _
      · cases hs
    · cases hs
  | releaseTimeout =>
    simp only [workerStep] at hs
    split at hs
    · cases hs
      exact inv_shutdown h.held
    · cases hs
  | close =>
    simp only [workerStep] at hs
    split at hs
    · split at hs
      · cases hs
        have hnone : ∀ key p, (s.popPartitions s.held).partitions key ≠ some p := by
          intro key p hp
          simp only [WorkerState.popPartitions] at hp
          split at hp
          · cases hp
          · rename_i hkey
            exact hkey (h.held key p hp)
        exact ⟨fun key p hp => absurd hp (hnone key p), fun key p hp => absurd hp (hnone key p),
          fun _ p _ hp => absurd hp (hnone _ p), fun key p hp => absurd hp (hnone key p)⟩
      · cases hs
    · cases hs
  | autoCommit =>
    simp only [workerStep] at hs
    split at hs
    · cases hs
    · cases hs
      exact inv_frame h rfl rfl rfl rfl
  | commitElsewhere key offset =>
    cases hs
    exact inv_frame h rfl rfl rfl rfl
  | report record report =>
    simp only [workerStep] at hs
    obtain ⟨producer, -, rfl⟩ := Option.map_eq_some_iff.mp hs
    exact inv_frame h rfl rfl rfl rfl
  | task key event =>
    simp only [workerStep] at hs
    split at hs
    · cases hs
    · rename_i p hp
      exact inv_task h hp hg hs

theorem inv_reachable {settings : WorkerSettings} {s : WorkerState}
    (h : (fraudWorker settings).ReachableWhen (TaskGoesOn settings) s) : BackpressureInv settings s := by
  refine StepSystem.ReachableWhen.invariant ?_ (fun s e s' hi hg hs => inv_step hi hg hs) h
  rintro _ ⟨committed, rfl⟩
  refine ⟨fun key p hp => ?_, fun key p hp => ?_, fun _ p _ hp => ?_, fun key p hp => ?_⟩ <;> cases hp

end BackpressureAux

open BackpressureAux

/-- Where no exception ends the task of a paused partition, or the high watermark is above one, backpressure is bounded and does not
stall, of every partition that is not stopping. -/
theorem backpressure_holds {settings : WorkerSettings} {s : WorkerState}
    (h : (fraudWorker settings).ReachableWhen (TaskGoesOn settings) s) {key : TopicPartition} {p : PartitionState}
    (hp : s.partitions key = some p) (hstop : p.stopping = false) : Backpressure settings s key p := by
  have hok := (inv_reachable h).partitions key p hp hstop
  refine ⟨hok.level.bounded, hok.paused, fun ⟨hpaused, hempty, htask⟩ => ?_⟩
  refine hok.level.not_stalled ⟨hpaused, congrArg List.length hempty, fun hbusy => ?_⟩
  unfold PartitionState.level TaskPhase.consumer at hbusy
  dsimp only at hbusy
  split at hbusy
  · cases hbusy
  · cases hbusy
  · exact htask _ _ _ ‹_›
  · cases hbusy

namespace BackpressureExample

open DeliveryExample HandlingExample RetryExample

theorem narrow_watermark : 1 ≤ 1 := Nat.le_refl 1

/-- A high watermark of one. -/
def narrow : WorkerSettings := { settings with partitionHighWatermark := 1, watermark_ok := narrow_watermark }

/-- A partition is assigned, and its first message pauses it and is taken from the queue. -/
def taken : List WorkerEvent := [.assign key, .poll message, .dispatch, .task key .begin, .task key .get]

/-- The partition while `_handle` is where it is. -/
def handlingState (h : Handling) : PartitionState := ⟨[], false, .handling message h none, true⟩

theorem taken_run : ((fraudWorker narrow).run (.subscribed fun _ => 0) taken).map (·.partitions key) =
    some (some (handlingState (.enter false))) := rfl

/-- `handler.process` ends, or a wait does. -/
theorem task_handling {s s' : WorkerState} {h h' : Handling} {event : TaskEvent}
    (hp : s.partitions key = some (handlingState h)) (hs : taskStep narrow s key (handlingState h) event = some s')
    (hs' : s'.partitions = Function.update s.partitions key (some (handlingState h'))) :
    (fraudWorker narrow).step s (.task key event) = some s' ∧ s'.partitions key = some (handlingState h') := by
  refine ⟨?_, by rw [hs', Function.update_self]⟩
  simp only [fraudWorker, workerStep, hp]
  exact hs

/-- A timeout of processing. -/
theorem task_timeout {s : WorkerState} {h : Handling} (hp : s.partitions key = some (handlingState h))
    (hphase : h.phase = .processing) : ∃ s', (fraudWorker narrow).step s (.task key (.processed (.error failure) none 0)) = some s' ∧
      s'.partitions key = some (handlingState ((h.record (message.failed failure)).retry narrow 0)) := by
  have hstep := @RetryAux.processed_step narrow message h hphase failure rfl none 0
  have htask : taskStep narrow s key (handlingState h) (.processed (.error failure) none 0) =
      some (s.setPartition key (handlingState ((h.record (message.failed failure)).retry narrow 0))) := by
    unfold taskStep handlingState
    dsimp only
    rw [hstep]
    rfl
  exact ⟨_, task_handling hp htask rfl⟩

/-- However many timeouts there have been, up to 1024, the next call is made. -/
theorem timeouts_taken (n : ℕ) (hn : n ≤ 1024) : ∃ s h, (fraudWorker narrow).Reachable s ∧
    s.partitions key = some (handlingState h) ∧ h.phase = .processing ∧ h.pendingLetter = none ∧ h.attempt = n + 1 := by
  induction n with
  | zero =>
    obtain ⟨s, hrun, hs⟩ := Option.map_eq_some_iff.mp taken_run
    exact ⟨s, .enter false, StepSystem.Reachable.run (.start ⟨_, rfl⟩) hrun, hs, rfl, rfl, rfl⟩
  | succ n ih =>
    obtain ⟨s, h, hr, hp, hphase, hletter, hattempt⟩ := ih (by omega)
    obtain ⟨s', hstep, hp'⟩ := task_timeout hp hphase
    have hdelay : ∃ delay, retryDelay h.attempt narrow.retryInitialBackoff narrow.retryMaxBackoff 0 = some delay := by
      unfold retryDelay
      rw [if_neg (by omega)]
      exact ⟨_, rfl⟩
    obtain ⟨delay, hd⟩ := hdelay
    rw [@RetryAux.retry_of_some narrow (h.record (message.failed failure)) 0 delay hd] at hp'
    have hwake : ∃ s'', (fraudWorker narrow).step s' (.task key .wake) = some s'' ∧ s''.partitions key =
        some (handlingState (({ h.record (message.failed failure) with phase := .waiting delay } : Handling).pass false)) :=
      ⟨_, task_handling hp' rfl rfl⟩
    obtain ⟨s'', hstep', hp''⟩ := hwake
    refine ⟨s'', _, .step (.step hr trivial hstep) trivial hstep', hp'', ?_, hletter, ?_⟩
    · simp only [Handling.pass, Handling.record, hletter, Bool.false_eq_true, if_false]
    · simp only [Handling.pass, Handling.record, Bool.false_eq_true, if_false, hattempt]

end BackpressureExample

open BackpressureExample DeliveryExample in
/-- A partition that is paused while its only message is handled. -/
theorem backpressure_holds_taken : ∃ s p, (fraudWorker narrow).run (.subscribed fun _ => 0) taken = some s ∧
    s.partitions key = some p ∧ p.paused = true ∧ p.queue = [] ∧ Backpressure narrow s key p := by
  obtain ⟨s, hrun, hp⟩ := Option.map_eq_some_iff.mp taken_run
  have hmeets : (fraudWorker narrow).Meets (TaskGoesOn narrow) (.subscribed fun _ => 0) taken := by
    refine StepSystem.meets_of_forall (fun e he _ => ?_) _
    simp only [taken, List.mem_cons, List.not_mem_nil, or_false] at he
    rcases he with rfl | rfl | rfl | rfl | rfl <;> trivial
  exact ⟨s, _, hrun, hp, rfl, rfl, backpressure_holds (StepSystem.ReachableWhen.run (.start ⟨_, rfl⟩) hmeets hrun) hp rfl⟩

open BackpressureExample DeliveryExample HandlingExample RetryExample in
/-- After the 1025th timeout in a row of its only message, a partition is paused, its queue is empty, and nothing is handled. -/
theorem backpressure_holds_false : ¬∀ (settings : WorkerSettings) (s : WorkerState) (key : TopicPartition) (p : PartitionState),
    (fraudWorker settings).Reachable s → s.partitions key = some p → p.stopping = false → Backpressure settings s key p := by
  intro hall
  obtain ⟨s, h, hr, hp, hphase, -, hattempt⟩ := timeouts_taken 1024 le_rfl
  obtain ⟨s', hstep, hp'⟩ := task_timeout hp hphase
  have hnone : retryDelay (h.record (message.failed failure)).attempt narrow.retryInitialBackoff narrow.retryMaxBackoff 0 = none := by
    unfold retryDelay
    rw [show (h.record (message.failed failure)).attempt = 1025 from hattempt]
    rfl
  have hraised : (h.record (message.failed failure)).retry narrow 0 =
      { h.record (message.failed failure) with phase := .raised .overflowError } := by
    unfold Handling.retry
    rw [hnone]
  rw [hraised] at hp'
  have hfinish : ∃ s'', (fraudWorker narrow).step s' (.task key (.finish false)) = some s'' ∧
      s''.partitions key = some ⟨[], false, .ended, true⟩ := by
    refine ⟨s'.setPartition key ⟨[], false, .ended, true⟩, ?_, ?_⟩
    · simp only [fraudWorker, workerStep, hp']
      rfl
    · simp only [WorkerState.setPartition, Function.update_self]
  obtain ⟨s'', hstep', hp''⟩ := hfinish
  have hholds := hall narrow s'' key _ (.step (.step hr trivial hstep) trivial hstep') hp'' rfl
  exact hholds.notStalled ⟨rfl, rfl, fun _ _ _ ht => by cases ht⟩

end FraudDetection
