import FraudDetection.Lib.Simulation
import FraudDetection.Theorems.Delivery

/-!
# A clean handover repeats nothing

When partitions are revoked, their tasks are waited for and what they finished is committed, so the next owner goes on after the last
message that was handled. As long as nothing is lost on the way, a worker therefore handles no message twice, however often its
partitions come and go.
-/

namespace FraudDetection

/-- The message that a step finishes, if it does: `_handle` has returned `True`. -/
def finishes (s : WorkerState) : WorkerEvent → List Message
  | .task key (.finish _) =>
    match (s.partitions key).map PartitionState.task with
    | some (.handling message h _) => if h.phase = .returned true then [message] else []
    | _ => []
  | _ => []

/-- The messages that a run finishes, in order. -/
def handledOrder (settings : WorkerSettings) : WorkerState → List WorkerEvent → List Message :=
  (fraudWorker settings).emitted finishes

/-- Nothing is lost: partitions are revoked and not lost, the callback does not time out, offsets can be stored and committed, and other
consumers commit only partitions that are not this worker's, and forwards. -/
def CleanStep (s : WorkerState) : WorkerEvent → Prop
  | .task _ (.finish storeFails) => storeFails = false
  | .revoke _ lost => lost = false
  | .released commitFails => commitFails = false
  | .releaseTimeout => False
  | .commitElsewhere key offset => s.assigned key = none ∧ s.committed key ≤ offset
  | _ => True

namespace HandoverAux

open DeliveryAux

/-! ## What is in line -/

/-- What a partition has still to handle, in order. -/
def lineOf : Option PartitionState → List Message
  | some p => inFlight p ++ waiting p
  | none => []

/-- What is still to be handled of a partition, the message in the loop's hand last. -/
def line (s : WorkerState) (key : TopicPartition) : List Message := lineOf (s.partitions key) ++ inHand s key

/-- What an assignment says of offsets. -/
def ledger (a : Assignment) : ℕ × List ℕ := (a.position, a.storedOffsets)

/-- Messages in increasing order of their offsets. -/
def Increasing (messages : List Message) : Prop := messages.Pairwise fun m m' => m.offset < m'.offset

/-- The messages of a partition. -/
def ofKey (messages : List Message) (key : TopicPartition) : List Message := messages.filter fun m => m.topicPartition = key

/-- What holds after steps that lose nothing. `done` is what was handled. -/
structure HandoverInv (s : WorkerState) (done : List Message) : Prop where
  owned : ∀ key p, s.partitions key = some p → (∃ a, s.assigned key = some a) ∧ key ∈ s.held
  clean : ∀ keys lost, s.phase = .releasing keys lost → lost = false
  keyed : ∀ key, ∀ m ∈ line s key, m.topicPartition = key
  increasing : ∀ key, Increasing (ofKey done key)
  ahead : ∀ key a, s.assigned key = some a → Increasing (ofKey done key ++ line s key) ∧
    ∀ m ∈ ofKey done key ++ line s key, m.offset < a.position
  /-- The next owner starts after everything that was handled. -/
  handed : ∀ m ∈ done, m.offset < s.commitStored m.topicPartition

theorem commitStored_eq {s s' : WorkerState} {k : TopicPartition} (ha : (s'.assigned k).map ledger = (s.assigned k).map ledger)
    (hc : s'.committed k = s.committed k) : s'.commitStored k = s.commitStored k := by
  have hstored : ∀ o : Option Assignment, o.bind Assignment.stored = (o.map ledger).bind fun l => l.2.getLast? := by
    intro o
    cases o <;> rfl
  unfold WorkerState.commitStored
  rw [hstored, hstored, ha, hc]

theorem assigned_of_ledger {s s' : WorkerState} {k : TopicPartition}
    (h : (s'.assigned k).map ledger = (s.assigned k).map ledger) {a' : Assignment} (ha : s'.assigned k = some a') :
    ∃ a, s.assigned k = some a ∧ a.position = a'.position := by
  rw [ha, Option.map_some] at h
  obtain ⟨a, hs, hl⟩ := Option.map_eq_some_iff.mp h.symm
  exact ⟨a, hs, congrArg Prod.fst hl⟩

/-- Handling on, or dropping, what is in line keeps all of it. -/
theorem inv_shrink {s s' : WorkerState} {done : List Message} (h : HandoverInv s done)
    (hassigned : ∀ k, (s'.assigned k).map ledger = (s.assigned k).map ledger) (hcommitted : s'.committed = s.committed)
    (hline : ∀ k, List.Sublist (line s' k) (line s k)) (hpartitions : ∀ k p', s'.partitions k = some p' → ∃ p, s.partitions k = some p)
    (hheld : s'.held = s.held) (hclean : ∀ keys lost, s'.phase = .releasing keys lost → lost = false) : HandoverInv s' done where
  owned key p' hp' := by
    obtain ⟨p, hp⟩ := hpartitions key p' hp'
    obtain ⟨⟨a, ha⟩, hmem⟩ := h.owned key p hp
    have hsome := hassigned key
    rw [ha, Option.map_some] at hsome
    obtain ⟨a', ha', -⟩ := Option.map_eq_some_iff.mp hsome
    rw [hheld]
    exact ⟨⟨a', ha'⟩, hmem⟩
  clean := hclean
  keyed key m hm := h.keyed key m ((hline key).subset hm)
  increasing := h.increasing
  ahead key a' ha' := by
    obtain ⟨a, ha, hposition⟩ := assigned_of_ledger (hassigned key) ha'
    obtain ⟨hincreasing, hbelow⟩ := h.ahead key a ha
    have hsub : List.Sublist (ofKey done key ++ line s' key) (ofKey done key ++ line s key) :=
      List.Sublist.append_left (hline key) _
    exact ⟨hincreasing.sublist hsub, fun m hm => hposition ▸ hbelow m (hsub.subset hm)⟩
  handed m hm := by
    rw [commitStored_eq (hassigned _) (congrFun hcommitted _)]
    exact h.handed m hm

/-! ## Steps of a task -/

/-- What the end of a pass leaves of a partition and of its assignment. -/
theorem endPass_line (settings : WorkerSettings) (s : WorkerState) (key : TopicPartition) (p : PartitionState) :
    ∃ p', (s.endPass settings key p).partitions = Function.update s.partitions key (some p') ∧ inFlight p' = [] ∧
      waiting p' = waiting p ∧ (∀ k, ((s.endPass settings key p).assigned k).map ledger = (s.assigned k).map ledger) ∧
      (s.endPass settings key p).phase = s.phase ∧ (s.endPass settings key p).held = s.held ∧
      (s.endPass settings key p).committed = s.committed := by
  have hhead : ∀ q : PartitionState, inFlight q.loopHead = [] := by
    intro q
    unfold inFlight PartitionState.loopHead
    cases q.stopping <;> rfl
  unfold WorkerState.endPass
  split
  · refine ⟨{ p with paused := false }.loopHead, rfl, hhead _, rfl, fun k => ?_, rfl, rfl, rfl⟩
    simp only [WorkerState.setPartition, WorkerState.setPaused, WorkerState.modifyAssignment]
    by_cases hk : k = key
    · subst hk
      rw [Function.update_self, Option.map_map]
      rfl
    · rw [Function.update_of_ne hk]
  · exact ⟨p.loopHead, rfl, hhead _, rfl, fun k => rfl, rfl, rfl, rfl⟩

/-- A task that goes on with its message has the same in line. -/
theorem line_goesOn {p : PartitionState} {message : Message} {h : Handling} {call : Option Publication}
    (ht : p.task = .handling message h call) (h' : Handling) (call' : Option Publication) :
    List.Sublist (inFlight { p with task := .handling message h' call' } ++ waiting p) (inFlight p ++ waiting p) := by
  unfold inFlight
  rw [ht]

/-- What a step of a task does to what is in line: it finishes the message at hand, or handles on, or drops. -/
theorem task_line {settings : WorkerSettings} {s s' : WorkerState} {key : TopicPartition} {p : PartitionState} {event : TaskEvent}
    (hp : s.partitions key = some p) (hs : taskStep settings s key p event = some s') :
    s'.phase = s.phase ∧ s'.held = s.held ∧ s'.committed = s.committed ∧
      ∃ p', s'.partitions = Function.update s.partitions key (some p') ∧
        ((finishes s (.task key event) = [] ∧ (∀ k, (s'.assigned k).map ledger = (s.assigned k).map ledger) ∧
            List.Sublist (inFlight p' ++ waiting p') (inFlight p ++ waiting p)) ∨
          ∃ message storeFails, event = .finish storeFails ∧ finishes s (.task key event) = [message] ∧ inFlight p = [message] ∧
            inFlight p' = [] ∧ waiting p' = waiting p ∧
            ∀ k, (s'.assigned k).map ledger =
              ((if storeFails then s else s.storeOffset key (message.offset + 1)).assigned k).map ledger) := by
  cases event with
  | begin =>
    simp only [taskStep] at hs
    split at hs
    · rename_i ht
      cases hs
      refine ⟨rfl, rfl, rfl, p.loopHead, rfl, .inl ⟨rfl, fun k => rfl, ?_⟩⟩
      have hhead : inFlight p.loopHead = [] := by
        unfold inFlight PartitionState.loopHead
        cases p.stopping <;> rfl
      rw [hhead]
      exact List.sublist_append_right _ _
    · cases hs
  | get =>
    simp only [taskStep] at hs
    split at hs
    · rename_i queue ht hq
      cases hs
      refine ⟨rfl, rfl, rfl, _, rfl, .inl ⟨rfl, fun k => rfl, ?_⟩⟩
      unfold inFlight waiting
      simp [ht, hq]
    · rename_i message queue ht hq
      split at hs
      · cases hs
        refine ⟨rfl, rfl, rfl, _, rfl, .inl ⟨rfl, fun k => rfl, ?_⟩⟩
        unfold inFlight waiting
        simp [ht, hq]
      · cases hs
        refine ⟨rfl, rfl, rfl, _, rfl, .inl ⟨rfl, fun k => rfl, ?_⟩⟩
        unfold inFlight waiting
        simp [ht, hq]
    · cases hs
  | processed result correlationId random =>
    simp only [taskStep] at hs
    split at hs
    · rename_i message h ht
      obtain ⟨h', -, rfl⟩ := Option.map_eq_some_iff.mp hs
      exact ⟨rfl, rfl, rfl, _, rfl, .inl ⟨rfl, fun k => rfl, line_goesOn ht _ _⟩⟩
    · cases hs
  | wake =>
    simp only [taskStep] at hs
    split at hs
    · rename_i message h ht
      obtain ⟨h', -, rfl⟩ := Option.map_eq_some_iff.mp hs
      exact ⟨rfl, rfl, rfl, _, rfl, .inl ⟨rfl, fun k => rfl, line_goesOn ht _ _⟩⟩
    · cases hs
  | produce error random =>
    simp only [taskStep] at hs
    split at hs
    · rename_i message h ht
      split at hs
      · split at hs
        · cases hs
          exact ⟨rfl, rfl, rfl, _, rfl, .inl ⟨rfl, fun k => rfl, line_goesOn ht _ _⟩⟩
        · obtain ⟨h', -, rfl⟩ := Option.map_eq_some_iff.mp hs
          exact ⟨rfl, rfl, rfl, _, rfl, .inl ⟨rfl, fun k => rfl, line_goesOn ht _ _⟩⟩
      · cases hs
    · cases hs
  | publication event random =>
    simp only [taskStep] at hs
    split at hs
    · rename_i message h publication ht
      split at hs
      · cases hs
      · cases hs
        exact ⟨rfl, rfl, rfl, _, rfl, .inl ⟨rfl, fun k => rfl, line_goesOn ht _ _⟩⟩
      · obtain ⟨h', -, rfl⟩ := Option.map_eq_some_iff.mp hs
        exact ⟨rfl, rfl, rfl, _, rfl, .inl ⟨rfl, fun k => rfl, line_goesOn ht _ _⟩⟩
    · cases hs
  | finish storeFails =>
    simp only [taskStep] at hs
    split at hs
    · rename_i message h publication ht
      have hfinishes : finishes s (.task key (.finish storeFails)) = if h.phase = .returned true then [message] else [] := by
        simp only [finishes, hp, Option.map_some, ht]
      have hflight : inFlight p = [message] := by
        unfold inFlight
        rw [ht]
      split at hs
      · rename_i handled hr
        cases hs
        cases handled with
        | false =>
          -- it was given up, and stays unhandled
          obtain ⟨p', hpartitions, hnone, hwaiting, hledger, hphase, hheld, hcommitted⟩ := endPass_line settings s key p
          simp only [Bool.false_and, Bool.false_eq_true, if_false]
          refine ⟨hphase, hheld, hcommitted, p', hpartitions, .inl ⟨?_, hledger, ?_⟩⟩
          · rw [hfinishes, hr]
            exact if_neg (by simp)
          · rw [hnone, hwaiting]
            exact List.sublist_append_right _ _
        | true =>
          obtain ⟨p', hpartitions, hnone, hwaiting, hledger, hphase, hheld, hcommitted⟩ :=
            endPass_line settings (if storeFails then s else s.storeOffset key (message.offset + 1)) key p
          have hsame : (if (true && !storeFails) = true then s.storeOffset key (message.offset + 1) else s) =
              if storeFails then s else s.storeOffset key (message.offset + 1) := by
            cases storeFails <;> rfl
          rw [hsame]
          refine ⟨hphase.trans (by cases storeFails <;> rfl), hheld.trans (by cases storeFails <;> rfl),
            hcommitted.trans (by cases storeFails <;> rfl), p', hpartitions.trans (by cases storeFails <;> rfl), .inr ?_⟩
          refine ⟨message, storeFails, rfl, ?_, hflight, hnone, hwaiting, hledger⟩
          rw [hfinishes, if_pos hr]
      · rename_i error hr
        cases hs
        refine ⟨rfl, rfl, rfl, _, rfl, .inl ⟨?_, fun k => rfl, ?_⟩⟩
        · rw [hfinishes, hr]
          exact if_neg (by simp)
        · exact List.sublist_append_right _ _
      · cases hs
    · cases hs
  | cancel =>
    simp only [taskStep] at hs
    split at hs
    · split at hs
      · cases hs
        exact ⟨rfl, rfl, rfl, _, rfl, .inl ⟨rfl, fun k => rfl, List.sublist_append_right _ _⟩⟩
      · cases hs
        exact ⟨rfl, rfl, rfl, _, rfl, .inl ⟨rfl, fun k => rfl, List.sublist_append_right _ _⟩⟩
      · rename_i message h publication ht
        obtain ⟨h', -, rfl⟩ := Option.map_eq_some_iff.mp hs
        exact ⟨rfl, rfl, rfl, _, rfl, .inl ⟨rfl, fun k => rfl, line_goesOn ht _ _⟩⟩
      · cases hs
    · cases hs

/-- A message at hand is finished and its offset stored: it goes from the line to what is done. -/
theorem inv_finish {s s' : WorkerState} {done : List Message} {key : TopicPartition} {p p' : PartitionState} {message : Message}
    (h : HandoverInv s done) (hp : s.partitions key = some p) (hpartitions : s'.partitions = Function.update s.partitions key (some p'))
    (hphase : s'.phase = s.phase) (hheld : s'.held = s.held) (hcommitted : s'.committed = s.committed) (hflight : inFlight p = [message])
    (hnone : inFlight p' = []) (hwaiting : waiting p' = waiting p)
    (hledger : ∀ k, (s'.assigned k).map ledger = ((s.storeOffset key (message.offset + 1)).assigned k).map ledger) :
    HandoverInv s' (done ++ [message]) := by
  have hhand : ∀ k, inHand s' k = inHand s k := by
    intro k
    unfold inHand
    rw [hphase]
  have hline : line s key = message :: line s' key := by
    unfold line
    rw [hpartitions, Function.update_self, hp, hhand]
    simp only [lineOf, hflight, hnone, hwaiting]
    rfl
  have hother : ∀ k, k ≠ key → line s' k = line s k := by
    intro k hk
    unfold line
    rw [hpartitions, Function.update_of_ne hk, hhand]
  have hkey : message.topicPartition = key := h.keyed key message (by rw [hline]; exact List.mem_cons_self ..)
  -- what is done and in line stays the same list, with one message less in line
  have hall : ∀ k, ofKey (done ++ [message]) k ++ line s' k = ofKey done k ++ line s k := by
    intro k
    unfold ofKey
    rw [List.filter_append]
    by_cases hk : k = key
    · subst hk
      rw [hline, List.append_assoc]
      simp [hkey]
    · have hne : ¬message.topicPartition = k := fun heq => hk (heq.symm.trans hkey)
      simp [hne, hother k hk]
  obtain ⟨⟨a, ha⟩, -⟩ := h.owned key p hp
  have hmine : ∃ a', s'.assigned key = some a' ∧ a'.storedOffsets = a.storedOffsets ++ [message.offset + 1] ∧
      a'.position = a.position := by
    have hl := hledger key
    simp only [WorkerState.storeOffset, WorkerState.modifyAssignment, Function.update_self, ha, Option.map_some] at hl
    obtain ⟨a', ha', heq⟩ := Option.map_eq_some_iff.mp hl
    exact ⟨a', ha', congrArg Prod.snd heq, congrArg Prod.fst heq⟩
  have hothers : ∀ k, k ≠ key → (s'.assigned k).map ledger = (s.assigned k).map ledger := by
    intro k hk
    rw [hledger k]
    simp only [WorkerState.storeOffset, WorkerState.modifyAssignment, Function.update_of_ne hk]
  have hposition : ∀ k a', s'.assigned k = some a' → ∃ a, s.assigned k = some a ∧ a.position = a'.position := by
    intro k a' ha'
    by_cases hk : k = key
    · subst hk
      obtain ⟨b, hb, -, hposition⟩ := hmine
      rw [ha'] at hb
      cases hb
      exact ⟨a, ha, hposition.symm⟩
    · exact assigned_of_ledger (hothers k hk) ha'
  constructor
  · intro k q hq
    rw [hpartitions] at hq
    rw [hheld]
    rcases StepSystem.update_cases hq with ⟨rfl, -⟩ | ⟨hk, hq⟩
    · obtain ⟨a', ha', -⟩ := hmine
      exact ⟨⟨a', ha'⟩, (h.owned k p hp).2⟩
    · obtain ⟨⟨b, hb⟩, hmem⟩ := h.owned k q hq
      have hsome := hothers k hk
      rw [hb, Option.map_some] at hsome
      obtain ⟨b', hb', -⟩ := Option.map_eq_some_iff.mp hsome
      exact ⟨⟨b', hb'⟩, hmem⟩
  · intro keys lost hrel
    exact h.clean keys lost (hphase ▸ hrel)
  · intro k m hm
    by_cases hk : k = key
    · subst hk
      exact h.keyed k m (by rw [hline]; exact List.mem_cons_of_mem _ hm)
    · rw [hother k hk] at hm
      exact h.keyed k m hm
  · intro k
    by_cases hk : k = key
    · subst hk
      have hincreasing := (h.ahead k a ha).1
      rw [← hall k] at hincreasing
      exact hincreasing.sublist (List.sublist_append_left _ _)
    · have hne : ¬message.topicPartition = k := fun heq => hk (heq.symm.trans hkey)
      have hsame : ofKey (done ++ [message]) k = ofKey done k := by
        unfold ofKey
        rw [List.filter_append]
        simp [hne]
      rw [hsame]
      exact h.increasing k
  · intro k a' ha'
    obtain ⟨b, hb, heq⟩ := hposition k a' ha'
    rw [hall k, ← heq]
    exact h.ahead k b hb
  · intro m hm
    by_cases hk : m.topicPartition = key
    · -- the offset after the message was stored, and nothing of its partition was handled after it
      obtain ⟨a', ha', hstored, -⟩ := hmine
      have hcommit : s'.commitStored key = message.offset + 1 := by
        unfold WorkerState.commitStored Assignment.stored
        rw [ha', Option.bind_some, hstored, List.getLast?_concat]
        rfl
      rw [hk, hcommit]
      rcases List.mem_append.mp hm with hm | hm
      · have hincreasing := (h.ahead key a ha).1
        rw [hline] at hincreasing
        have hlt := (List.pairwise_append.mp hincreasing).2.2 m (List.mem_filter.mpr ⟨hm, decide_eq_true hk⟩) message
          (List.mem_cons_self ..)
        exact Nat.lt_succ_of_lt hlt
      · rw [List.mem_singleton.mp hm]
        exact Nat.lt_succ_self _
    · have hold : m ∈ done := by
        rcases List.mem_append.mp hm with hm | hm
        · exact hm
        · rw [List.mem_singleton.mp hm] at hk
          exact absurd hkey hk
      rw [commitStored_eq (hothers _ hk) (congrFun hcommitted _)]
      exact h.handed m hold

/-- A step of a task. -/
theorem inv_task {settings : WorkerSettings} {s s' : WorkerState} {done : List Message} {key : TopicPartition} {p : PartitionState}
    {event : TaskEvent} (h : HandoverInv s done) (hp : s.partitions key = some p) (hclean : CleanStep s (.task key event))
    (hs : taskStep settings s key p event = some s') : HandoverInv s' (done ++ finishes s (.task key event)) := by
  obtain ⟨hphase, hheld, hcommitted, p', hpartitions, hkind⟩ := task_line hp hs
  rcases hkind with ⟨hnone, hledger, hsub⟩ | ⟨message, storeFails, rfl, hone, hflight, hnone, hwaiting, hledger⟩
  · rw [hnone, List.append_nil]
    refine inv_shrink h hledger hcommitted (fun k => ?_) (fun k q hq => ?_) hheld fun keys lost hrel => ?_
    · unfold line inHand
      rw [hphase, hpartitions]
      refine List.Sublist.append_right ?_ _
      by_cases hk : k = key
      · subst hk
        rw [Function.update_self, hp]
        exact hsub
      · rw [Function.update_of_ne hk]
    · rw [hpartitions] at hq
      rcases StepSystem.update_cases hq with ⟨rfl, -⟩ | ⟨-, hq⟩
      · exact ⟨p, hp⟩
      · exact ⟨q, hq⟩
    · exact h.clean keys lost (hphase ▸ hrel)
  · have hstored : storeFails = false := hclean
    subst hstored
    rw [hone]
    exact inv_finish h hp hpartitions hphase hheld hcommitted hflight hnone hwaiting hledger

/-! ## Steps of the loop -/

/-- A partition that stops keeps only the message at hand. -/
theorem line_stop (o : Option PartitionState) : List.Sublist (lineOf (o.map PartitionState.stop)) (lineOf o) := by
  cases o with
  | none => exact List.Sublist.refl _
  | some p =>
    have hwaiting : waiting p.stop = [] := rfl
    have hflight : inFlight p.stop = inFlight p := rfl
    simp only [Option.map_some, lineOf, hwaiting, hflight, List.append_nil]
    exact List.sublist_append_left _ _

theorem inHand_nil {s : WorkerState} {phase : RunPhase} (hphase : s.phase = phase) (h : ∀ message, phase ≠ .dispatching message)
    (key : TopicPartition) : inHand s key = [] :=
  DeliveryAux.inHand_nil (fun message hm => h message (hphase.symm.trans hm)) key

/-- Some partitions stop, and the loop goes elsewhere. -/
theorem inv_stop {s : WorkerState} {done : List Message} (h : HandoverInv s done) (keys : List TopicPartition) {phase : RunPhase}
    (hphase : ∀ message, phase ≠ .dispatching message) (hclean : ∀ keys lost, phase = .releasing keys lost → lost = false) :
    HandoverInv { s.stopPartitions keys with phase := phase } done := by
  refine inv_shrink h (fun k => rfl) rfl (fun k => ?_) (fun k q hq => ?_) rfl hclean
  · unfold line
    rw [inHand_nil rfl hphase, List.append_nil]
    refine List.Sublist.trans ?_ (List.sublist_append_left _ _)
    simp only [WorkerState.stopPartitions]
    split
    · exact line_stop _
    · exact List.Sublist.refl _
  · simp only [WorkerState.stopPartitions] at hq
    split at hq
    · obtain ⟨p, hp, -⟩ := Option.map_eq_some_iff.mp hq
      exact ⟨p, hp⟩
    · exact ⟨q, hq⟩

/-- The loop goes on, or `_shutdown` begins. -/
theorem inv_loopHead {s : WorkerState} {done : List Message} (h : HandoverInv s done) (hphase : s.phase = .polling) :
    HandoverInv s.loopHead done := by
  unfold WorkerState.loopHead
  split
  · rw [← hphase]
    exact h
  · exact inv_stop h s.held (fun _ hm => by cases hm) fun _ _ hrel => by cases hrel

/-- The message in the loop's hand is put at the end of its queue, or dropped. -/
theorem inv_dispatch {settings : WorkerSettings} {s : WorkerState} {done : List Message} {message : Message} (h : HandoverInv s done)
    (hphase : s.phase = .dispatching message) : HandoverInv { s.dispatch settings message with phase := .polling } done := by
  have hhand : inHand s message.topicPartition = [message] := by
    unfold inHand
    rw [hphase]
    exact if_pos rfl
  have hdrop : HandoverInv { s with phase := .polling } done := by
    refine inv_shrink h (fun k => rfl) rfl (fun k => ?_) (fun k q hq => ⟨q, hq⟩) rfl fun _ _ hrel => by cases hrel
    unfold line
    exact List.Sublist.append_left (List.nil_sublist _) _
  -- a partition that takes the message has the same line
  have htake : ∀ p (s' : WorkerState) (p' : PartitionState), s.partitions message.topicPartition = some p →
      s'.partitions = Function.update s.partitions message.topicPartition (some p') → p'.queue = p.queue ++ [some message] →
      p'.task = p.task → (∀ k, (s'.assigned k).map ledger = (s.assigned k).map ledger) → s'.committed = s.committed →
      s'.held = s.held → HandoverInv { s' with phase := .polling } done := by
    intro p s' p' hp hpartitions hqueue htask hassigned hcommitted hheld
    refine inv_shrink h hassigned hcommitted (fun k => ?_) (fun k q hq => ?_) hheld fun _ _ hrel => by cases hrel
    · unfold line
      rw [inHand_nil (s := { s' with phase := .polling }) rfl (fun _ hm => by cases hm), List.append_nil]
      dsimp only
      rw [hpartitions]
      by_cases hk : k = message.topicPartition
      · subst hk
        rw [Function.update_self, hp, hhand]
        have hw : waiting p' = waiting p ++ [message] := by
          unfold waiting
          rw [hqueue]
          simp
        have hf : inFlight p' = inFlight p := by
          unfold inFlight
          rw [htask]
        simp only [lineOf, hw, hf, List.append_assoc]
        exact List.Sublist.refl _
      · rw [Function.update_of_ne hk]
        exact List.sublist_append_left _ _
    · dsimp only at hq
      rw [hpartitions] at hq
      rcases StepSystem.update_cases hq with ⟨rfl, -⟩ | ⟨-, hq⟩
      · exact ⟨p, hp⟩
      · exact ⟨q, hq⟩
  unfold WorkerState.dispatch
  dsimp only
  split
  · exact hdrop
  · rename_i p hp
    split
    · exact hdrop
    · split
      · refine htake p _ { p with queue := p.queue ++ [some message], paused := true } hp rfl rfl rfl (fun k => ?_) rfl rfl
        simp only [WorkerState.setPartition, WorkerState.setPaused, WorkerState.modifyAssignment]
        by_cases hk : k = message.topicPartition
        · subst hk
          rw [Function.update_self, Option.map_map]
          rfl
        · rw [Function.update_of_ne hk]
      · exact htake p _ { p with queue := p.queue ++ [some message] } hp rfl rfl rfl (fun k => rfl) rfl rfl

/-- A message is delivered at or after the position, and so after everything that was handled or is in line. -/
theorem inv_poll {s : WorkerState} {done : List Message} {message : Message} {a : Assignment} (h : HandoverInv s done)
    (hphase : s.phase = .polling) (ha : s.assigned message.topicPartition = some a) (hposition : a.position ≤ message.offset) :
    HandoverInv { s.modifyAssignment message.topicPartition (fun a =>
      { a with position := message.offset + 1, delivered := a.delivered ++ [message] }) with phase := .dispatching message } done := by
  have hold : ∀ k, inHand s k = [] := inHand_nil hphase fun _ hm => by cases hm
  have hassigned : ∀ k, (Function.update s.assigned message.topicPartition ((s.assigned message.topicPartition).map fun a =>
      { a with position := message.offset + 1, delivered := a.delivered ++ [message] })) k = s.assigned k ∨
      k = message.topicPartition := by
    intro k
    by_cases hk : k = message.topicPartition
    · exact .inr hk
    · exact .inl (Function.update_of_ne hk ..)
  have hline : ∀ k, k ≠ message.topicPartition → line { s.modifyAssignment message.topicPartition (fun a =>
      { a with position := message.offset + 1, delivered := a.delivered ++ [message] }) with phase := .dispatching message } k =
      line s k := by
    intro k hk
    unfold line
    rw [hold k]
    unfold inHand
    simp only [if_neg (fun hm : message.topicPartition = k => hk hm.symm)]
    rfl
  have hself : line { s.modifyAssignment message.topicPartition (fun a =>
      { a with position := message.offset + 1, delivered := a.delivered ++ [message] }) with phase := .dispatching message }
      message.topicPartition = line s message.topicPartition ++ [message] := by
    unfold line
    rw [hold, List.append_nil]
    unfold inHand
    simp only [if_true]
    rfl
  constructor
  · intro k p hp
    obtain ⟨⟨b, hb⟩, hmem⟩ := h.owned k p hp
    refine ⟨?_, hmem⟩
    rcases hassigned k with heq | rfl
    · exact ⟨b, heq.trans hb⟩
    · simp only [WorkerState.modifyAssignment, Function.update_self, ha, Option.map_some]
      exact ⟨_, rfl⟩
  · intro keys lost hrel
    cases hrel
  · intro k m hm
    by_cases hk : k = message.topicPartition
    · subst hk
      rw [hself] at hm
      rcases List.mem_append.mp hm with hm | hm
      · exact h.keyed _ m hm
      · rw [List.mem_singleton.mp hm]
    · rw [hline k hk] at hm
      exact h.keyed k m hm
  · exact h.increasing
  · intro k b hb
    by_cases hk : k = message.topicPartition
    · subst hk
      obtain ⟨hincreasing, hbelow⟩ := h.ahead _ a ha
      simp only [WorkerState.modifyAssignment, Function.update_self, ha, Option.map_some, Option.some.injEq] at hb
      subst hb
      rw [hself, ← List.append_assoc]
      refine ⟨List.pairwise_append.mpr ⟨hincreasing, List.pairwise_singleton _ _, fun m hm m' hm' => ?_⟩, fun m hm => ?_⟩
      · rw [List.mem_singleton.mp hm']
        exact (hbelow m hm).trans_le hposition
      · rcases List.mem_append.mp hm with hm | hm
        · exact Nat.lt_succ_of_lt ((hbelow m hm).trans_le hposition)
        · rw [List.mem_singleton.mp hm]
          exact Nat.lt_succ_self _
    · simp only [WorkerState.modifyAssignment, Function.update_of_ne hk] at hb
      rw [hline k hk]
      exact h.ahead k b hb
  · intro m hm
    refine (h.handed m hm).trans_le (le_of_eq ?_)
    unfold WorkerState.commitStored
    simp only [WorkerState.modifyAssignment]
    by_cases hk : m.topicPartition = message.topicPartition
    · rw [hk, Function.update_self, ha]
      rfl
    · rw [Function.update_of_ne hk]

/-- A partition is assigned, from the committed offset on. -/
theorem inv_assign {s : WorkerState} {done : List Message} {key : TopicPartition} (h : HandoverInv s done) (hphase : s.phase = .polling)
    (hnone : s.assigned key = none) :
    s.partitions key = none ∧ HandoverInv { WorkerState.setPartition
      { s with assigned := Function.update s.assigned key (some ⟨s.committed key, false, [], []⟩) } key .new with
        held := s.held ++ [key] } done := by
  have hfree : s.partitions key = none := by
    cases hp : s.partitions key with
    | none => rfl
    | some p =>
      obtain ⟨⟨a, ha⟩, -⟩ := h.owned key p hp
      rw [hnone] at ha
      cases ha
  have hold : ∀ k, inHand s k = [] := inHand_nil hphase fun _ hm => by cases hm
  have hhand : ∀ k, inHand { WorkerState.setPartition
      { s with assigned := Function.update s.assigned key (some ⟨s.committed key, false, [], []⟩) } key .new with
        held := s.held ++ [key] } k = [] := inHand_nil (by exact hphase) fun _ hm => by cases hm
  have hline : ∀ k, line { WorkerState.setPartition
      { s with assigned := Function.update s.assigned key (some ⟨s.committed key, false, [], []⟩) } key .new with
        held := s.held ++ [key] } k = line s k := by
    intro k
    unfold line
    rw [hold k, hhand k]
    simp only [WorkerState.setPartition]
    by_cases hk : k = key
    · subst hk
      rw [Function.update_self, hfree]
      rfl
    · rw [Function.update_of_ne hk]
  refine ⟨hfree, ?_⟩
  constructor
  · intro k p hp
    simp only [WorkerState.setPartition] at hp ⊢
    by_cases hk : k = key
    · subst hk
      rw [Function.update_self]
      exact ⟨⟨_, rfl⟩, List.mem_append_right _ (List.mem_singleton_self _)⟩
    · rw [Function.update_of_ne hk] at hp ⊢
      obtain ⟨hassigned, hmem⟩ := h.owned k p hp
      exact ⟨hassigned, List.mem_append_left _ hmem⟩
  · intro keys lost hrel
    exact h.clean keys lost hrel
  · intro k m hm
    rw [hline] at hm
    exact h.keyed k m hm
  · exact h.increasing
  · intro k a ha
    rw [hline]
    simp only [WorkerState.setPartition] at ha
    rcases StepSystem.update_cases ha with ⟨rfl, hnew⟩ | ⟨-, ha⟩
    · -- it starts where the last owner ended
      cases hnew
      have hempty : line s k = [] := by
        unfold line
        rw [hold, hfree]
        rfl
      rw [hempty, List.append_nil]
      refine ⟨h.increasing k, fun m hm => ?_⟩
      obtain ⟨hmem, hk⟩ := List.mem_filter.mp hm
      have hlt := h.handed m hmem
      rw [of_decide_eq_true hk] at hlt
      unfold WorkerState.commitStored at hlt
      rw [hnone] at hlt
      exact hlt
    · exact h.ahead k a ha
  · intro m hm
    refine (h.handed m hm).trans_le (le_of_eq ?_)
    unfold WorkerState.commitStored
    simp only [WorkerState.setPartition]
    by_cases hk : m.topicPartition = key
    · rw [hk, Function.update_self, hnone]
      rfl
    · rw [Function.update_of_ne hk]

/-- What is stored is committed, and partitions are given up. -/
theorem inv_release {s : WorkerState} {done : List Message} (h : HandoverInv s done) {keys : List TopicPartition} {phase : RunPhase}
    {assigned : TopicPartition → Option Assignment} (hold : ∀ message, s.phase ≠ .dispatching message)
    (hphase : ∀ message, phase ≠ .dispatching message) (hnot : ∀ keys lost, phase ≠ .releasing keys lost)
    (hassigned : ∀ k a, assigned k = some a → s.assigned k = some a)
    (hkept : ∀ k, k ∈ s.held → k ∉ keys → assigned k = s.assigned k) :
    HandoverInv { s.popPartitions keys with assigned := assigned, committed := s.commitStored, phase := phase } done := by
  have hhand : ∀ k, inHand s k = [] := DeliveryAux.inHand_nil hold
  have hline : ∀ k, List.Sublist (line { s.popPartitions keys with
      assigned := assigned, committed := s.commitStored, phase := phase } k) (line s k) := by
    intro k
    unfold line
    rw [hhand k, inHand_nil rfl hphase, List.append_nil, List.append_nil]
    simp only [WorkerState.popPartitions]
    split
    · exact List.nil_sublist _
    · exact List.Sublist.refl _
  constructor
  · intro k p hp
    simp only [WorkerState.popPartitions] at hp ⊢
    split at hp
    · cases hp
    · rename_i hk
      obtain ⟨⟨a, ha⟩, hmem⟩ := h.owned k p hp
      exact ⟨⟨a, (hkept k hmem hk).trans ha⟩, List.mem_filter.mpr ⟨hmem, decide_eq_true hk⟩⟩
  · intro keys lost hrel
    exact absurd hrel (hnot keys lost)
  · intro k m hm
    exact h.keyed k m ((hline k).subset hm)
  · exact h.increasing
  · intro k a ha
    obtain ⟨hincreasing, hbelow⟩ := h.ahead k a (hassigned k a ha)
    have hsub := List.Sublist.append_left (hline k) (ofKey done k)
    exact ⟨hincreasing.sublist hsub, fun m hm => hbelow m (hsub.subset hm)⟩
  · intro m hm
    have hlt := h.handed m hm
    unfold WorkerState.commitStored
    dsimp only
    cases ha : assigned m.topicPartition with
    | none => exact hlt
    | some a =>
      rw [Option.bind_some]
      unfold WorkerState.commitStored at hlt
      rw [hassigned _ a ha, Option.bind_some] at hlt ⊢
      cases hs : a.stored with
      | none =>
        rw [hs] at hlt
        exact hlt
      | some offset =>
        rw [hs] at hlt
        exact hlt

/-- A step that loses nothing, and is not one of a task. -/
theorem inv_loop {settings : WorkerSettings} {s s' : WorkerState} {done : List Message} {e : WorkerEvent} (h : HandoverInv s done)
    (hclean : CleanStep s e) (hloop : ∀ key event, e ≠ .task key event) (hs : workerStep settings s e = some s') :
    HandoverInv s' done := by
  cases e with
  | task key event => exact absurd rfl (hloop key event)
  | stop =>
    cases hs
    exact ⟨h.owned, h.clean, h.keyed, h.increasing, h.ahead, h.handed⟩
  | poll message =>
    simp only [workerStep] at hs
    split at hs
    · rename_i a hphase ha
      split at hs
      · rename_i hguard
        cases hs
        rw [Bool.and_eq_true, decide_eq_true_eq] at hguard
        exact inv_poll h hphase ha hguard.2
      · cases hs
    · cases hs
  | pollNothing =>
    simp only [workerStep] at hs
    split at hs
    · rename_i hphase
      cases hs
      exact inv_loopHead h hphase
    · cases hs
  | pollFails =>
    simp only [workerStep] at hs
    split at hs
    · cases hs
      exact inv_stop h s.held (fun _ hm => by cases hm) fun _ _ hrel => by cases hrel
    · cases hs
  | dispatch =>
    simp only [workerStep] at hs
    split at hs
    · rename_i message hphase
      cases hs
      rw [loopHead_phase _ .polling]
      exact inv_loopHead (inv_dispatch h hphase) rfl
    · cases hs
  | assign key =>
    simp only [workerStep] at hs
    split at hs
    · rename_i hphase hnone
      obtain ⟨hfree, hassigned⟩ := inv_assign h hphase hnone
      split at hs
      · rename_i p hp
        rw [hfree] at hp
        cases hp
      · cases hs
        exact hassigned
    · cases hs
  | revoke keys lost =>
    simp only [workerStep] at hs
    split at hs
    · cases hs
      refine inv_stop h keys (fun _ hm => by cases hm) fun _ _ hrel => ?_
      cases hrel
      exact hclean
    · cases hs
  | released commitFails =>
    simp only [workerStep] at hs
    split at hs
    · rename_i keys lost hphase
      split at hs
      · cases hs
        have hlost : lost = false := h.clean keys lost hphase
        have hcommits : commitFails = false := hclean
        subst hlost
        subst hcommits
        refine inv_release h (fun message hm => ?_) (fun _ hm => by cases hm) (fun _ _ hrel => by cases hrel) (fun k a ha => ?_)
          fun k _ hk => if_neg hk
        · rw [hphase] at hm
          cases hm
        · simp only [WorkerState.unassign, WorkerState.popPartitions] at ha
          split at ha
          · cases ha
          · exact ha
      · cases hs
    · cases hs
  | releaseTimeout => exact absurd hclean id
  | close =>
    simp only [workerStep] at hs
    split at hs
    · rename_i hphase
      split at hs
      · cases hs
        refine inv_release h (fun message hm => ?_) (fun _ hm => by cases hm) (fun _ _ hrel => by cases hrel)
          (fun k a ha => by cases ha) fun k hmem hk => absurd hmem hk
        rw [hphase] at hm
        cases hm
      · cases hs
    · cases hs
  | autoCommit =>
    simp only [workerStep] at hs
    split at hs
    · cases hs
    · cases hs
      refine ⟨h.owned, h.clean, h.keyed, h.increasing, h.ahead, fun m hm => (h.handed m hm).trans_le (le_of_eq ?_)⟩
      unfold WorkerState.commitStored
      dsimp only
      cases (s.assigned m.topicPartition).bind Assignment.stored <;> rfl
  | commitElsewhere key offset =>
    cases hs
    refine ⟨h.owned, h.clean, h.keyed, h.increasing, h.ahead, fun m hm => (h.handed m hm).trans_le ?_⟩
    unfold WorkerState.commitStored
    dsimp only
    by_cases hk : m.topicPartition = key
    · rw [hk, hclean.1, Function.update_self]
      exact hclean.2
    · rw [Function.update_of_ne hk]
  | report record report =>
    simp only [workerStep] at hs
    obtain ⟨producer, -, rfl⟩ := Option.map_eq_some_iff.mp hs
    exact ⟨h.owned, h.clean, h.keyed, h.increasing, h.ahead, h.handed⟩

/-- Every step that loses nothing. -/
theorem inv_step {settings : WorkerSettings} {s s' : WorkerState} {done : List Message} {e : WorkerEvent} (h : HandoverInv s done)
    (hclean : CleanStep s e) (hs : (fraudWorker settings).step s e = some s') : HandoverInv s' (done ++ finishes s e) := by
  by_cases htask : ∃ key event, e = .task key event
  · obtain ⟨key, event, rfl⟩ := htask
    simp only [fraudWorker, workerStep] at hs
    split at hs
    · cases hs
    · rename_i p hp
      exact inv_task h hp hclean hs
  · have hloop : ∀ key event, e ≠ .task key event := fun key event heq => htask ⟨key, event, heq⟩
    have hnone : finishes s e = [] := by
      unfold finishes
      split
      · rename_i key storeFails
        exact absurd rfl (hloop key _)
      · rfl
    rw [hnone, List.append_nil]
    exact inv_loop h hclean hloop hs

theorem inv_subscribed (committed : TopicPartition → ℕ) : HandoverInv (.subscribed committed) [] where
  owned key p hp := by cases hp
  clean keys lost hrel := by cases hrel
  keyed key m hm := by cases hm
  increasing key := List.Pairwise.nil
  ahead key a ha := by cases ha
  handed m hm := by cases hm

end HandoverAux

open HandoverAux

/-- While nothing is lost, a worker handles the messages of each partition in the order of their offsets and none of them twice, over any
number of assignments; and when a partition is not its own, all that it has handled lies below the committed offset, where the next owner
starts. -/
theorem handled_once {settings : WorkerSettings} {s t : WorkerState} {es : List WorkerEvent} (hs : (fraudWorker settings).start s)
    (hm : (fraudWorker settings).Meets CleanStep s es) (hr : (fraudWorker settings).run s es = some t) :
    ((handledOrder settings s es).Pairwise fun m m' => m.topicPartition = m'.topicPartition → m.offset < m'.offset) ∧
      ∀ m ∈ handledOrder settings s es, t.assigned m.topicPartition = none → m.offset < t.committed m.topicPartition := by
  obtain ⟨committed, rfl⟩ := hs
  have hi : HandoverInv t (handledOrder settings (.subscribed committed) es) :=
    StepSystem.Meets.emitted_invariant HandoverInv (fun _ _ _ _ h hclean hstep => inv_step h hclean hstep) hm hr
      (inv_subscribed committed)
  refine ⟨?_, fun m hmem hnone => ?_⟩
  · -- of two messages of one partition, the filter keeps both, in their order
    refine List.pairwise_iff_forall_sublist.mpr fun {m m'} hsub hkey => ?_
    have hkept := hsub.filter fun x => decide (x.topicPartition = m'.topicPartition)
    have hboth : [m, m'].filter (fun x => decide (x.topicPartition = m'.topicPartition)) = [m, m'] := by
      simp [hkey]
    rw [hboth] at hkept
    exact List.pairwise_iff_forall_sublist.mp (hi.increasing m'.topicPartition) hkept
  · have hlt := hi.handed m hmem
    unfold WorkerState.commitStored at hlt
    rw [hnone] at hlt
    exact hlt

namespace HandoverExample

open HandlingExample DeliveryExample

/-- One message is processed, the partition is revoked while the next one is in its queue, comes back, and the next one is delivered
again. -/
def cleanEvents : List WorkerEvent := [
  .assign key, .task key .begin, .poll message, .dispatch, .task key .get, .poll next, .dispatch,
  .task key (.processed (.ok ()) none random), .revoke [key] false, .task key (.finish false), .released false,
  .assign key, .task key .begin, .poll next, .dispatch, .task key .get, .task key (.processed (.ok ()) none random),
  .task key (.finish false), .revoke [key] false, .task key .get, .released false]

theorem clean_run : ((fraudWorker settings).run (.subscribed fun _ => 0) cleanEvents).map
    (fun s => ((s.assigned key).isNone, s.committed key)) = some (true, 9) := rfl

theorem clean_order : handledOrder settings (.subscribed fun _ => 0) cleanEvents = [message, next] := rfl

theorem clean_meets : (fraudWorker settings).Meets CleanStep (.subscribed fun _ => 0) cleanEvents := by
  refine StepSystem.meets_of_forall (fun e he s => ?_) _
  simp only [cleanEvents, List.mem_cons, List.not_mem_nil, or_false] at he
  rcases he with rfl | rfl | rfl | rfl | rfl | rfl | rfl | rfl | rfl | rfl | rfl | rfl | rfl | rfl | rfl | rfl | rfl | rfl | rfl | rfl | rfl
  all_goals trivial

end HandoverExample

open HandlingExample DeliveryExample HandoverExample in
/-- Of two messages and two assignments, each message is handled once. -/
theorem handled_once_revoked : ∃ t, (fraudWorker settings).run (.subscribed fun _ => 0) cleanEvents = some t ∧
    handledOrder settings (.subscribed fun _ => 0) cleanEvents = [message, next] ∧ message.offset < next.offset ∧
    next.offset < t.committed key := by
  obtain ⟨t, ht, hstate⟩ := Option.map_eq_some_iff.mp clean_run
  obtain ⟨hordered, hcommitted⟩ := handled_once ⟨_, rfl⟩ clean_meets ht
  rw [clean_order] at hordered hcommitted
  refine ⟨t, ht, clean_order, ?_, ?_⟩
  · exact List.rel_of_pairwise_cons hordered (List.mem_singleton_self _) rfl
  · refine hcommitted next (by simp) ?_
    exact Option.isNone_iff_eq_none.mp (congrArg Prod.fst hstate)

end FraudDetection
