import FraudDetection.Theorems.Handling

/-!
# Database outages and dead letters

A server error that SQLAlchemy passes on as a plain `DBAPIError` is transient only if the connection was closed or asyncpg has one of
three classes for it. Every other one counts as unexpected, and a few of them in a row dead-letter a valid message.
-/

namespace FraudDetection

/-- The exception a call of `handler.process` ended in. -/
def Call.failure : Call → Option PyException
  | .process _ _ (.error error) => some error
  | _ => none

/-- The exceptions processing has ended in, in order. -/
def Handling.failures (h : Handling) : List PyException := h.calls.filterMap Call.failure

/-- A dead letter is being published, or has been. -/
def Handling.DeadLetters (h : Handling) : Prop := (∃ letter, h.phase = .publishing letter) ∨ ∃ letter result, .publish letter result ∈ h.calls

/-- While processing a message fails in these outages, one after the other, each is transient, and no dead letter is published. -/
def NeverDeadLettered (driver : Asyncpg) (settings : WorkerSettings) (message : Message) (outages : List Outage) : Prop :=
  (∀ outage ∈ outages, classifyFailure (outage.raised driver) = .transient) ∧
    ∀ s, (handling settings message).Reachable s → s.2.failures = outages.map (·.raised driver) → ¬s.2.DeadLetters

namespace OutagesAux

/-! ## Classification -/

/-- No connection exception is a server's condition. -/
theorem not_connection (driver : Asyncpg) (outage : Outage) : driver.errorClass outage.sqlstate ≠ .postgresConnectionError := by
  intro h
  obtain ⟨rest, hrest⟩ := driver.connection _ h
  rcases outage.serverSide with ⟨rest', h'⟩ | ⟨rest', h'⟩ | h'
  · rw [← hrest] at h'
    cases h'
  · rw [← hrest] at h'
    cases h'
  · rw [h'] at hrest
    cases hrest

/-- The classes in the list of transient ones that a server's condition can have. -/
theorem isTransientLibraryError_iff (driver : Asyncpg) (outage : Outage) :
    (driver.errorClass outage.sqlstate).isTransientLibraryError = true ↔ outage.sqlstate ∈ ["53300", "57014", "57P03"] := by
  simp only [List.mem_cons, List.not_mem_nil, or_false]
  rw [← driver.tooManyConnections, ← driver.queryCanceled, ← driver.cannotConnectNow]
  have hnot := not_connection driver outage
  rcases driver.postgresError outage.sqlstate with hclass | ⟨name, hclass⟩
  · simp only [List.mem_cons, List.not_mem_nil, or_false] at hclass
    rcases hclass with hclass | hclass | hclass | hclass
    · exact absurd hclass hnot
    · simp [hclass, ErrorClass.isTransientLibraryError]
    · simp [hclass, ErrorClass.isTransientLibraryError]
    · simp [hclass, ErrorClass.isTransientLibraryError]
  · simp [hclass, ErrorClass.isTransientLibraryError]

/-- Which of these errors are transient. -/
theorem transient_iff (driver : Asyncpg) (outage : Outage) :
    classifyFailure (outage.raised driver) = .transient ↔
      outage.connectionClosed = true ∨ outage.sqlstate ∈ ["53300", "57014", "57P03"] := by
  rw [← isTransientLibraryError_iff driver outage]
  unfold Outage.raised classifyFailure
  cases outage.connectionClosed with
  | true => simp
  | false =>
    have horig : (ErrorClass.other "Error").isTransientLibraryError = false := rfl
    simp [horig]

/-! ## Handling -/

/-- A failure that makes a message undeliverable is not transient. -/
theorem undeliverable_class {attempts : ℕ} {failures : List PyException} {error : PyException}
    (h : Undeliverable attempts failures error) : classifyFailure error ≠ .transient := by
  rcases h with h | ⟨h, -⟩
  · rw [h]
    decide
  · rw [h]
    decide

/-- At every moment, the calls follow the failure classes. -/
theorem calls_byClass {settings : WorkerSettings} {message : Message} {s : Bool × Handling}
    (h : (handling settings message).Reachable s) : ByClass settings.maxUnexpectedErrorAttempts message s.2.calls := by
  have hretrying : ∀ {passes : ℕ}, HandlingAux.Retrying settings.maxUnexpectedErrorAttempts message passes s.2 →
      ByClass settings.maxUnexpectedErrorAttempts message s.2.calls := by
    rintro passes ⟨failures, hretry, hcalls, -⟩
    rw [hcalls]
    exact .retried hretry
  have hi := HandlingAux.inv_reachable h
  unfold HandlingAux.LoopInv at hi
  split at hi
  · exact hretrying hi
  · exact HandlingAux.judged_byClass hi
  · exact HandlingAux.unfinished_byClass hi
  · obtain ⟨before, call, -, -, -, hclass⟩ := hi
    exact hclass
  · exact HandlingAux.unfinished_byClass hi.2
  · rcases hi with hi | hi
    · exact hretrying hi
    · exact HandlingAux.unfinished_byClass hi

/-- A message for which a dead letter is published has failed in a way that is not transient. -/
theorem deadLetters_failed {settings : WorkerSettings} {message : Message} {s : Bool × Handling}
    (h : (handling settings message).Reachable s) (hd : s.2.DeadLetters) :
    ∃ error ∈ s.2.failures, classifyFailure error ≠ .transient := by
  rcases hd with ⟨letter, hphase⟩ | ⟨letter, result, hmem⟩
  · have hi := HandlingAux.inv_reachable h
    unfold HandlingAux.LoopInv at hi
    rw [hphase] at hi
    obtain ⟨failures, error, publishes, -, hend, -, -, -, hcalls⟩ := hi
    refine ⟨error, List.mem_filterMap.mpr ⟨message.failed error, ?_, rfl⟩, undeliverable_class hend⟩
    rw [hcalls]
    exact List.mem_append_right _ List.mem_cons_self
  · have hclass := calls_byClass h
    generalize hcalls : s.2.calls = calls at hclass hmem
    have hnone : ∀ failures : List PyException, Call.publish letter result ∉ failures.map message.failed := by
      intro failures hfailed
      obtain ⟨error, -, heq⟩ := List.mem_map.mp hfailed
      cases heq
    cases hclass with
    | retried hretry => exact absurd hmem (hnone _)
    | processed hretry =>
      rcases List.mem_append.mp hmem with hmem | hmem
      · exact absurd hmem (hnone _)
      · cases List.mem_singleton.mp hmem
    | @deadLettered failures error _ _ hretry hend _ _ =>
      refine ⟨error, List.mem_filterMap.mpr ⟨message.failed error, ?_, rfl⟩, undeliverable_class hend⟩
      rw [hcalls]
      exact List.mem_append_right _ List.mem_cons_self

end OutagesAux

open OutagesAux

/-- Outages do not dead-letter a message exactly when each of them closed the connection or has one of three SQLSTATEs. -/
theorem outages_neverDeadLettered_iff (driver : Asyncpg) (settings : WorkerSettings) (message : Message) (outages : List Outage) :
    NeverDeadLettered driver settings message outages ↔
      ∀ outage ∈ outages, outage.connectionClosed = true ∨ outage.sqlstate ∈ ["53300", "57014", "57P03"] := by
  constructor
  · rintro ⟨hclass, -⟩ outage ho
    exact (transient_iff driver outage).mp (hclass outage ho)
  · intro hretried
    have hclass : ∀ outage ∈ outages, classifyFailure (outage.raised driver) = .transient := fun outage ho =>
      (transient_iff driver outage).mpr (hretried outage ho)
    refine ⟨hclass, fun s hs hfailures hd => ?_⟩
    obtain ⟨error, herror, hnot⟩ := deadLetters_failed hs hd
    rw [hfailures] at herror
    obtain ⟨outage, ho, rfl⟩ := List.mem_map.mp herror
    exact hnot (hclass outage ho)

namespace OutagesExample

open HandlingExample

/-- The classes asyncpg has for these SQLSTATEs. -/
def errorClass (sqlstate : String) : ErrorClass :=
  if sqlstate ∈ ["08000", "08001", "08003", "08004", "08006", "08007", "08P01"] then .postgresConnectionError
  else if sqlstate = "53300" then .tooManyConnectionsError
  else if sqlstate = "57014" then .queryCanceledError
  else if sqlstate = "57P03" then .cannotConnectNowError
  else .other "PostgresError"

/-- asyncpg. -/
def driver : Asyncpg where
  errorClass := errorClass
  postgresError sqlstate := by
    unfold errorClass
    split_ifs <;> simp
  connection sqlstate := by
    unfold errorClass
    split_ifs with h08
    · intro _
      simp only [List.mem_cons, List.not_mem_nil, or_false] at h08
      rcases h08 with rfl | rfl | rfl | rfl | rfl | rfl | rfl <;> decide
    all_goals
      intro h
      cases h
  tooManyConnections sqlstate := by
    unfold errorClass
    split_ifs with h08 h <;> simp_all
    rintro rfl
    exact absurd h08 (by decide)
  queryCanceled sqlstate := by
    unfold errorClass
    split_ifs with h08 h h' <;> simp_all
    rintro rfl
    exact absurd h08 (by decide)
  cannotConnectNow sqlstate := by
    unfold errorClass
    split_ifs with h08 h h' <;> simp_all
    rintro rfl
    exact absurd h08 (by decide)

/-- `disk_full`. -/
def diskFull : Outage := ⟨"53100", false, .inl (by decide)⟩

/-- The disk is full at every attempt, and the dead letter is acknowledged. -/
def outageEvents : List MessageEvent := [
  .handling (.processed (.error (diskFull.raised driver)) none random), .handling .wake,
  .handling (.processed (.error (diskFull.raised driver)) none random), .handling .wake,
  .handling (.processed (.error (diskFull.raised driver)) none random),
  .handling (.published (.ok ()) random)]

theorem outage_run : ((handling settings message).run (false, .enter false) outageEvents).map
    (fun s => (s.2.phase, s.2.calls)) = some (.returned true, List.replicate 3 (message.failed (diskFull.raised driver)) ++
      [.publish (message.deadLetter (diskFull.raised driver) 3 none) (.ok ())]) := rfl

end OutagesExample

open OutagesExample HandlingExample in
/-- Three attempts on a full disk dead-letter a message. -/
theorem outages_neverDeadLettered_false : ¬NeverDeadLettered driver settings message (List.replicate 3 diskFull) := by
  rintro ⟨-, hnever⟩
  obtain ⟨s, hrun, hs⟩ := Option.map_eq_some_iff.mp outage_run
  injection hs with hphase hcalls
  refine hnever s (StepSystem.Reachable.run (.start ⟨false, rfl⟩) hrun) ?_ (.inr ⟨message.deadLetter (diskFull.raised driver) 3 none, .ok (), ?_⟩)
  · unfold Handling.failures
    rw [hcalls, List.filterMap_append]
    rfl
  · rw [hcalls]
    exact List.mem_append_right _ (List.mem_singleton_self _)

end FraudDetection
