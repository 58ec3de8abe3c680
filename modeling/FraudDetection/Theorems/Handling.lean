import FraudDetection.Handling

/-!
# The outcome of one message

Whatever `handler.process` and `dead_letters.publish` come to, and whenever the partition is told to stop: `_handle` makes calls in
an order that the failure classes alone decide, and returns `True` exactly when the last one succeeded.
-/

namespace FraudDetection

/-- How many of some failures are of the unexpected class. -/
def unexpectedCount (failures : List PyException) : ℕ := failures.countP fun e => classifyFailure e = .unexpected

/-- Failures after which processing is tried again: none is permanent, and fewer than `attempts` are unexpected. -/
def Retryable (attempts : ℕ) (failures : List PyException) : Prop :=
  (∀ e ∈ failures, classifyFailure e ≠ .permanent) ∧ unexpectedCount failures < attempts

/-- A failure that ends the processing, after some others: a permanent one, or the last of the unexpected ones allowed. -/
def Undeliverable (attempts : ℕ) (failures : List PyException) (error : PyException) : Prop :=
  classifyFailure error = .permanent ∨
    (classifyFailure error = .unexpected ∧ unexpectedCount failures + 1 = attempts)

/-- A call of `handler.process` on the message, which ended like this. -/
def Message.processed (message : Message) (result : CallResult) : Call := .process message.value message.provenance result

/-- A call of `handler.process` on the message, which failed. -/
def Message.failed (message : Message) (error : PyException) : Call := message.processed (.error error)

/-- A letter that carries a message and a failure of it: its own bytes, where it came from, the error and the class of the error. -/
structure DeadLetter.Carries (letter : DeadLetter) (message : Message) (failure : PyException) : Prop where
  key : letter.key = message.key
  value : letter.value = message.value
  sourceTopic : letter.sourceTopic = message.topic
  sourcePartition : letter.sourcePartition = message.partition
  sourceOffset : letter.sourceOffset = message.offset
  error : letter.error = failure
  failureClass : letter.failureClass = classifyFailure failure

/-- The calls for one message, in an order that follows its failure classes. -/
inductive ByClass (attempts : ℕ) (message : Message) : List Call → Prop where
  /-- Processing failed, each time in a way that is retried. -/
  | retried {failures : List PyException} (h : Retryable attempts failures) :
      ByClass attempts message (failures.map message.failed)
  /-- And then it succeeded. -/
  | processed {failures : List PyException} (h : Retryable attempts failures) :
      ByClass attempts message (failures.map message.failed ++ [message.processed (.ok ())])
  /-- Or it failed for good, and from then on only one letter was published, which carries the message and that failure. -/
  | deadLettered {failures : List PyException} {error : PyException} {letter : DeadLetter} {publishes : List CallResult}
      (h : Retryable attempts failures) (he : Undeliverable attempts failures error) (hl : letter.Carries message error)
      (ha : letter.attempts = failures.length + 1) :
      ByClass attempts message (failures.map message.failed ++ message.failed error :: publishes.map (Call.publish letter))

namespace HandlingAux

/-! ## The loop's invariant -/

/-- Processing is still tried: `passes` of them are under way. -/
def Retrying (attempts : ℕ) (message : Message) (passes : ℕ) (h : Handling) : Prop :=
  ∃ failures, Retryable attempts failures ∧ h.calls = failures.map message.failed ∧ h.pendingLetter = none ∧
    h.unexpectedFailures = unexpectedCount failures ∧ h.attempt = failures.length + passes

/-- The letter that `_handle` makes of a message carries it. -/
theorem deadLetter_carries (message : Message) (error : PyException) (attempts : ℕ) (correlationId : Option String) :
    (message.deadLetter error attempts correlationId).Carries message error where
  key := rfl
  value := rfl
  sourceTopic := rfl
  sourcePartition := rfl
  sourceOffset := rfl
  error := rfl
  failureClass := rfl

/-- The message has been judged undeliverable, and its letter is not yet published. -/
def Judged (attempts : ℕ) (message : Message) (letter : DeadLetter) (h : Handling) : Prop :=
  ∃ failures error, ∃ publishes : List PyException,
    Retryable attempts failures ∧ Undeliverable attempts failures error ∧
      letter.Carries message error ∧ letter.attempts = failures.length + 1 ∧ h.pendingLetter = some letter ∧
      h.calls = failures.map message.failed ++ message.failed error :: publishes.map fun e => .publish letter (.error e)

/-- Neither processed nor published. -/
def Unfinished (attempts : ℕ) (message : Message) (h : Handling) : Prop :=
  Retrying attempts message 0 h ∨ ∃ letter, Judged attempts message letter h

/-- Processed or published, by the last call. -/
def Finished (attempts : ℕ) (message : Message) (h : Handling) : Prop :=
  ∃ before call, h.calls = before ++ [call] ∧ call.succeeded = true ∧ (∀ c ∈ before, c.succeeded = false) ∧
    ByClass attempts message h.calls

/-- What holds at each await, and at the end. -/
def LoopInv (attempts : ℕ) (message : Message) (s : Bool × Handling) : Prop :=
  match s.2.phase with
  | .processing => Retrying attempts message 1 s.2
  | .publishing letter => Judged attempts message letter s.2
  | .waiting _ => Unfinished attempts message s.2
  | .returned true => Finished attempts message s.2
  | .returned false => s.1 = true ∧ Unfinished attempts message s.2
  | .raised _ => Retrying attempts message 1 s.2 ∨ Unfinished attempts message s.2

section

variable {settings : WorkerSettings} {message : Message} {attempts : ℕ} {h : Handling}

theorem pass_inv (hu : Unfinished attempts message h) (stopping : Bool) :
    LoopInv attempts message (stopping, h.pass stopping) := by
  unfold Handling.pass
  cases stopping with
  | true => exact ⟨rfl, hu⟩
  | false =>
    rcases hu with ⟨failures, hretry, hcalls, hpending, hcount, hattempt⟩ | ⟨letter, hjudged⟩
    · simp only [Bool.false_eq_true, if_false, hpending]
      exact ⟨failures, hretry, hcalls, rfl, hcount, by rw [hattempt]⟩
    · obtain ⟨failures, error, publishes, hretry, hend, hcarries, hattempts, hpending, hcalls⟩ := hjudged
      simp only [Bool.false_eq_true, if_false, hpending]
      exact ⟨failures, error, publishes, hretry, hend, hcarries, hattempts, rfl, hcalls⟩

theorem retry_inv (hu : Unfinished attempts message h) (stopping : Bool) (random : Random) :
    LoopInv attempts message (stopping, h.retry settings random) := by
  unfold Handling.retry
  split
  · exact Or.inr hu
  · exact hu

/-- One more failure: the message is judged, or processing goes on. -/
theorem fail_inv (hr : Retrying settings.maxUnexpectedErrorAttempts message 1 h) (stopping : Bool) (error : PyException)
    (correlationId : Option String) (random : Random) :
    LoopInv settings.maxUnexpectedErrorAttempts message
      (stopping, (h.record (message.failed error)).fail settings message stopping error correlationId random) := by
  obtain ⟨failures, ⟨hnone, hfew⟩, hcalls, hpending, hcount, hattempt⟩ := hr
  have hcount' : unexpectedCount (failures ++ [error]) =
      unexpectedCount failures + if classifyFailure error = .unexpected then 1 else 0 := by
    simp [unexpectedCount, List.countP_append, List.countP_cons]
  unfold Handling.fail
  simp only
  split_ifs with hunexpected hend hend
  · -- an unexpected failure, the last one allowed
    have hlast : settings.maxUnexpectedErrorAttempts ≤ h.unexpectedFailures + 1 := by
      rcases hend with hperm | ⟨-, hlast⟩
      · rw [hunexpected] at hperm
        cases hperm
      · exact hlast
    refine pass_inv (Or.inr ⟨_, failures, error, [], ⟨hnone, hfew⟩, Or.inr ⟨hunexpected, by omega⟩,
      deadLetter_carries message error _ correlationId, ?_, rfl, ?_⟩) stopping
    · simp only [Handling.record, Message.deadLetter, hattempt]
    · simp only [Handling.record, hcalls, List.map_nil]
  · -- an unexpected failure, and more are allowed
    have hfewer : ¬settings.maxUnexpectedErrorAttempts ≤ h.unexpectedFailures + 1 := fun hle =>
      hend (Or.inr ⟨hunexpected, hle⟩)
    refine retry_inv (h := { h.record (message.failed error) with unexpectedFailures := h.unexpectedFailures + 1 })
      (Or.inl ⟨failures ++ [error], ⟨?_, ?_⟩, ?_, hpending, ?_, ?_⟩) stopping random
    · intro e he
      rcases List.mem_append.mp he with he | he
      · exact hnone e he
      · rw [List.mem_singleton.mp he, hunexpected]
        decide
    · rw [hcount', if_pos hunexpected]
      omega
    · simp only [Handling.record, hcalls, List.map_append, List.map_cons, List.map_nil]
    · rw [hcount', if_pos hunexpected, ← hcount]
    · simp only [Handling.record, hattempt, List.length_append, List.length_singleton, add_zero]
  · -- a permanent failure
    have hperm : classifyFailure error = .permanent := by
      rcases hend with hperm | ⟨hunexp, -⟩
      · exact hperm
      · exact absurd hunexp hunexpected
    refine pass_inv (Or.inr ⟨_, failures, error, [], ⟨hnone, hfew⟩, Or.inl hperm,
      deadLetter_carries message error _ correlationId, ?_, rfl, ?_⟩) stopping
    · simp only [Handling.record, Message.deadLetter, hattempt]
    · simp only [Handling.record, hcalls, List.map_nil]
  · -- a transient failure
    refine retry_inv (h := h.record (message.failed error))
      (Or.inl ⟨failures ++ [error], ⟨?_, ?_⟩, ?_, hpending, ?_, ?_⟩) stopping random
    · intro e he
      rcases List.mem_append.mp he with he | he
      · exact hnone e he
      · rw [List.mem_singleton.mp he]
        exact fun hperm => hend (Or.inl hperm)
    · rw [hcount', if_neg hunexpected]
      omega
    · simp only [Handling.record, hcalls, List.map_append, List.map_cons, List.map_nil]
    · rw [hcount', if_neg hunexpected, ← hcount]
      rfl
    · simp only [Handling.record, hattempt, List.length_append, List.length_singleton, add_zero]

theorem failed_not_succeeded (failures : List PyException) : ∀ c ∈ failures.map message.failed, c.succeeded = false := by
  intro c hc
  obtain ⟨e, -, rfl⟩ := List.mem_map.mp hc
  rfl

/-- Every call before the message is processed or published failed. -/
theorem judged_failed {letter : DeadLetter} (hj : Judged attempts message letter h) : ∀ c ∈ h.calls, c.succeeded = false := by
  obtain ⟨failures, error, publishes, -, -, -, -, -, hcalls⟩ := hj
  intro c hc
  rw [hcalls, List.mem_append, List.mem_cons] at hc
  rcases hc with hc | rfl | hc
  · exact failed_not_succeeded failures c hc
  · rfl
  · obtain ⟨e, -, rfl⟩ := List.mem_map.mp hc
    rfl

theorem unfinished_failed (hu : Unfinished attempts message h) : ∀ c ∈ h.calls, c.succeeded = false := by
  rcases hu with ⟨failures, -, hcalls, -⟩ | ⟨letter, hj⟩
  · rw [hcalls]
    exact failed_not_succeeded failures
  · exact judged_failed hj

theorem judged_byClass {letter : DeadLetter} (hj : Judged attempts message letter h) : ByClass attempts message h.calls := by
  obtain ⟨failures, error, publishes, hretry, hend, hcarries, hattempts, -, hcalls⟩ := hj
  have hmap : publishes.map (fun e => Call.publish letter (.error e)) =
      (publishes.map Except.error).map (Call.publish letter) := by
    rw [List.map_map]
    rfl
  rw [hcalls, hmap]
  exact .deadLettered hretry hend hcarries hattempts

theorem unfinished_byClass (hu : Unfinished attempts message h) : ByClass attempts message h.calls := by
  rcases hu with ⟨failures, hretry, hcalls, -⟩ | ⟨letter, hj⟩
  · rw [hcalls]
    exact .retried hretry
  · exact judged_byClass hj

theorem step_inv {stopping : Bool} {event : HandlingEvent} {h' : Handling}
    (hi : LoopInv settings.maxUnexpectedErrorAttempts message (stopping, h))
    (hs : h.step settings message stopping event = some h') :
    LoopInv settings.maxUnexpectedErrorAttempts message (stopping, h') := by
  unfold LoopInv at hi
  cases event with
  | processed result correlationId random =>
    cases hphase : h.phase with
    | processing =>
      simp only [hphase] at hi
      simp only [Handling.step, hphase] at hs
      cases result with
      | error error =>
        cases hs
        exact fail_inv hi stopping error correlationId random
      | ok _ =>
        cases hs
        obtain ⟨failures, hretry, hcalls, -⟩ := hi
        refine ⟨failures.map message.failed, message.processed (.ok ()), ?_, rfl, failed_not_succeeded failures, ?_⟩
        · simp only [Handling.record, hcalls]
          rfl
        · simp only [Handling.record, hcalls]
          exact .processed hretry
    | _ => simp only [Handling.step, hphase, reduceCtorEq] at hs
  | published result random =>
    cases hphase : h.phase with
    | publishing letter =>
      simp only [hphase] at hi
      simp only [Handling.step, hphase] at hs
      have hjudged := hi
      obtain ⟨failures, error, publishes, hretry, hend, hcarries, hattempts, hpending, hcalls⟩ := hi
      cases result with
      | error e =>
        cases hs
        refine retry_inv (h := h.record (.publish letter (.error e))) (Or.inr ⟨letter, failures, error,
          publishes ++ [e], hretry, hend, hcarries, hattempts, hpending, ?_⟩) stopping random
        simp only [Handling.record, hcalls, List.append_assoc, List.cons_append, List.map_append, List.map_cons, List.map_nil]
      | ok _ =>
        cases hs
        refine ⟨h.calls, .publish letter (.ok ()), rfl, rfl, judged_failed hjudged, ?_⟩
        have hmap : publishes.map (fun e => Call.publish letter (.error e)) ++ [.publish letter (.ok ())] =
            (publishes.map Except.error ++ [Except.ok ()]).map (Call.publish letter) := by
          rw [List.map_append, List.map_map]
          rfl
        simp only [Handling.record, hcalls, List.append_assoc, List.cons_append, hmap]
        exact .deadLettered hretry hend hcarries hattempts
    | _ => simp only [Handling.step, hphase, reduceCtorEq] at hs
  | wake =>
    cases hphase : h.phase with
    | waiting delay =>
      simp only [hphase] at hi
      simp only [Handling.step, hphase] at hs
      cases hs
      exact pass_inv hi stopping
    | _ => simp only [Handling.step, hphase, reduceCtorEq] at hs
  | cancel =>
    cases hphase : h.phase with
    | processing =>
      simp only [hphase] at hi
      simp only [Handling.step, hphase] at hs
      cases hs
      exact Or.inl hi
    | publishing letter =>
      simp only [hphase] at hi
      simp only [Handling.step, hphase] at hs
      cases hs
      exact Or.inr (Or.inr ⟨letter, hi⟩)
    | waiting delay =>
      simp only [hphase] at hi
      simp only [Handling.step, hphase] at hs
      cases hs
      exact Or.inr hi
    | _ => simp only [Handling.step, hphase, reduceCtorEq] at hs

end

/-- The loop is entered with no calls made. -/
theorem enter_inv (settings : WorkerSettings) (message : Message) (stopping : Bool) :
    LoopInv settings.maxUnexpectedErrorAttempts message (stopping, .enter stopping) :=
  pass_inv (Or.inl ⟨[], ⟨by simp, settings.attempts_ok⟩, rfl, rfl, rfl, rfl⟩) stopping

/-- Telling the partition to stop changes nothing in the loop. -/
theorem stop_inv {message : Message} {attempts : ℕ} {stopping : Bool} {h : Handling}
    (hi : LoopInv attempts message (stopping, h)) : LoopInv attempts message (true, h) := by
  unfold LoopInv at hi ⊢
  simp only at hi ⊢
  split at hi
  · exact hi
  · exact hi
  · exact hi
  · exact hi
  · exact ⟨trivial, hi.2⟩
  · exact hi

/-- The invariant holds wherever the handling of a message leads. -/
theorem inv_reachable {settings : WorkerSettings} {message : Message} {s : Bool × Handling}
    (h : (handling settings message).Reachable s) : LoopInv settings.maxUnexpectedErrorAttempts message s := by
  refine StepSystem.Reachable.invariant ?_ ?_ h
  · rintro _ ⟨stopping, rfl⟩
    exact enter_inv settings message stopping
  · rintro ⟨stopping, h⟩ event s' hi hs
    cases event with
    | handling event =>
      obtain ⟨h', hstep, rfl⟩ := Option.map_eq_some_iff.mp hs
      exact step_inv hi hstep
    | stop =>
      cases hs
      exact stop_inv hi

end HandlingAux

open HandlingAux

/-- Whenever `_handle` returns: it returns `True` exactly when its last call succeeded; at most one call did; its calls follow the
failure classes; and it returns `False` only when the partition is stopping and no call succeeded. -/
theorem handle_outcome {settings : WorkerSettings} {message : Message} {s : Bool × Handling}
    (h : (handling settings message).Reachable s) {handled : Bool} (hr : s.2.phase = .returned handled) :
    (handled = true ↔ ∃ call, s.2.calls.getLast? = some call ∧ call.succeeded = true) ∧
      (s.2.calls.filter Call.succeeded).length ≤ 1 ∧
      ByClass settings.maxUnexpectedErrorAttempts message s.2.calls ∧
      (handled = false → s.1 = true ∧ ∀ call ∈ s.2.calls, call.succeeded = false) := by
  have hi := inv_reachable h
  unfold LoopInv at hi
  rw [hr] at hi
  cases handled with
  | true =>
    obtain ⟨before, call, hcalls, hsucceeded, hfailed, hclass⟩ := hi
    refine ⟨⟨fun _ => ⟨call, by rw [hcalls, List.getLast?_concat], hsucceeded⟩, fun _ => rfl⟩, ?_, hclass, by simp⟩
    have hnone : before.filter Call.succeeded = [] := by
      rw [List.filter_eq_nil_iff]
      intro c hc
      rw [hfailed c hc]
      simp
    rw [hcalls, List.filter_append, hnone, List.nil_append]
    exact List.length_filter_le _ _
  | false =>
    obtain ⟨hstop, hu⟩ := hi
    have hfailed := unfinished_failed hu
    refine ⟨⟨by simp, ?_⟩, ?_, unfinished_byClass hu, fun _ => ⟨hstop, hfailed⟩⟩
    · rintro ⟨call, hlast, hsucceeded⟩
      rw [hfailed call (List.mem_of_getLast? hlast)] at hsucceeded
      cases hsucceeded
    · have hnone : s.2.calls.filter Call.succeeded = [] := by
        rw [List.filter_eq_nil_iff]
        intro c hc
        rw [hfailed c hc]
        simp
      rw [hnone]
      exact Nat.zero_le 1

namespace HandlingExample

theorem lt_bound {q : ℚ} (h : q < 2 ^ 10) : q < Binary64.bound :=
  lt_of_lt_of_le h (pow_le_pow_right₀ (by norm_num) (by norm_num))

/-- The default settings. -/
def settings : WorkerSettings where
  maxUnexpectedErrorAttempts := 3
  retryInitialBackoff := .finite (1 / 2)
  retryMaxBackoff := .finite 30
  partitionHighWatermark := 500
  attempts_ok := by decide
  initial_ok := ⟨by norm_num, lt_bound (by norm_num), 1, -1, by norm_num, by norm_num, by norm_num⟩
  maximum_ok := ⟨by norm_num, lt_bound (by norm_num), 30, 0, by norm_num, by norm_num, by norm_num⟩
  ordered_ok := by norm_num [Binary64.le]
  watermark_ok := by decide

/-- A message with the key `u1` and the value `x`, which is no JSON. -/
def message : Message := ⟨"transactions", 0, 7, some [117, 49], some [120], some 1700000000000⟩

/-- A delay without jitter. -/
def random : Random := 0

/-- Processing raises an `InvalidEventError`, and the dead letter is acknowledged. -/
def events : List MessageEvent := [
  .handling (.processed (.error (.error .invalidEventError)) none 0),
  .handling (.published (.ok ()) 0)]

/-- The two calls. -/
def calls : List Call := [
  message.failed (.error .invalidEventError),
  .publish (message.deadLetter (.error .invalidEventError) 1 none) (.ok ())]

theorem events_run : ((handling settings message).run (false, .enter false) events).map
    (fun s => (s.1, s.2.phase, s.2.calls)) = some (false, .returned true, calls) := rfl

end HandlingExample

open HandlingExample in
/-- A message whose value is no event is dead-lettered, under its own key. -/
theorem handle_outcome_deadLettered :
    ∃ s, (handling settings message).Reachable s ∧ s.2.phase = .returned true ∧ s.2.calls = calls ∧
      ((true = true ↔ ∃ call, s.2.calls.getLast? = some call ∧ call.succeeded = true) ∧
        (s.2.calls.filter Call.succeeded).length ≤ 1 ∧
        ByClass settings.maxUnexpectedErrorAttempts message s.2.calls ∧
        (true = false → s.1 = true ∧ ∀ call ∈ s.2.calls, call.succeeded = false)) := by
  obtain ⟨s, hs, hrun⟩ := Option.map_eq_some_iff.mp events_run
  have hreach : (handling settings message).Reachable s := StepSystem.Reachable.run (.start ⟨false, rfl⟩) hs
  have hphase : s.2.phase = .returned true := congrArg (fun t => t.2.1) hrun
  exact ⟨s, hreach, hphase, congrArg (fun t => t.2.2) hrun, handle_outcome hreach hphase⟩

end FraudDetection
