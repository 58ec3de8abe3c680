import FraudDetection.Scoring
import FraudDetection.Theorems.Parsing
import FraudDetection.Theorems.RoundTrip
import FraudDetection.Theorems.TypeSoundness

/-!
# Timestamps near the ends of the calendar

A timestamp is converted to UTC when an event is parsed, a window is taken off it when it is scored, and the ends of the window are
converted to UTC when the driver writes the query. All are computed by `datetime`, which raises `OverflowError` outside the years 1
to 9999; the driver makes a `DataError` of it. Here: exactly which timestamps do that.
-/

namespace FraudDetection

/-- A `datetime` can hold the ends of a transaction's window: the start in wall-clock time, and both of them in UTC. -/
structure WindowHeld (input : ScoreInput) (window : ℕ) : Prop where
  start : datetimeMin ≤ input.wall - window * 1000000 ∧ input.wall - window * 1000000 ≤ datetimeMax
  startUtc : datetimeMin ≤ input.occurredAt - window * 1000000
  endUtc : input.occurredAt ≤ datetimeMax

namespace TimestampsAux

theorem datetimeOf_eq_some {t u : ℤ} : datetimeOf t = some u ↔ (datetimeMin ≤ t ∧ t ≤ datetimeMax) ∧ u = t := by
  unfold datetimeOf
  split
  · simp_all [eq_comm]
  · simp_all

/-- The query of a window whose ends can be written in UTC is the statement on them. -/
theorem getVelocityAggregates_eq_some {rows : List TransactionRecord} {userId excludeTransactionId : Uuid}
    {windowStart windowEnd : Timestamp} {currency : String} {velocity : ℕ × Decimal} :
    getVelocityAggregates rows userId windowStart windowEnd excludeTransactionId currency = some velocity ↔
      ((datetimeMin ≤ windowStart ∧ windowStart ≤ datetimeMax) ∧ datetimeMin ≤ windowEnd ∧ windowEnd ≤ datetimeMax) ∧
        velocity = velocityAggregates rows userId windowStart windowEnd excludeTransactionId currency := by
  unfold getVelocityAggregates
  constructor
  · intro h
    split at h
    · rename_i start stop hstart hstop
      obtain ⟨hs, rfl⟩ := datetimeOf_eq_some.mp hstart
      obtain ⟨he, rfl⟩ := datetimeOf_eq_some.mp hstop
      cases h
      exact ⟨⟨hs, he⟩, rfl⟩
    · cases h
  · rintro ⟨⟨hs, he⟩, rfl⟩
    rw [datetimeOf_eq_some.mpr ⟨hs, rfl⟩, datetimeOf_eq_some.mpr ⟨he, rfl⟩]

/-- The velocity of a transaction is computed when its window is held, and it is that of the window. -/
theorem velocity_eq_ok {rows : List TransactionRecord} {input : ScoreInput} {window : ℕ} {velocity : ℕ × Decimal} :
    input.velocity rows window = .ok velocity ↔
      WindowHeld input window ∧
        velocity = velocityAggregates rows input.userId (input.occurredAt - window * 1000000) input.occurredAt
          input.excludeTransactionId input.currency := by
  have hbegin : input.wall - window * 1000000 - input.offset * 1000000 = input.occurredAt - window * 1000000 := by
    rw [ScoreInput.occurredAt]
    ring
  unfold ScoreInput.velocity
  constructor
  · intro h
    split at h
    · cases h
    · rename_i start hstart
      obtain ⟨hs, rfl⟩ := datetimeOf_eq_some.mp hstart
      split at h
      · cases h
      · rename_i velocity' hquery
        cases h
        rw [hbegin] at hquery
        obtain ⟨⟨hbegins, hends⟩, hvelocity⟩ := getVelocityAggregates_eq_some.mp hquery
        exact ⟨⟨hs, hbegins.1, hends.2⟩, hvelocity⟩
  · rintro ⟨⟨hs, hbegins, hends⟩, hvelocity⟩
    have hquery : getVelocityAggregates rows input.userId (input.occurredAt - window * 1000000) input.occurredAt
        input.excludeTransactionId input.currency = some velocity :=
      getVelocityAggregates_eq_some.mpr ⟨⟨⟨hbegins, by linarith⟩, by linarith, hends⟩, hvelocity⟩
    have hstart : input.windowStart window = some (input.wall - window * 1000000) := datetimeOf_eq_some.mpr ⟨hs, rfl⟩
    simp only [hstart, hbegin, hquery]

/-- Whether a velocity is computed does not depend on the rows. -/
theorem velocity_error_rows {rows : List TransactionRecord} {input : ScoreInput} {window : ℕ} {error : ScoreError}
    (h : input.velocity rows window = .error error) (rows' : List TransactionRecord) : input.velocity rows' window = .error error := by
  unfold ScoreInput.velocity getVelocityAggregates at h ⊢
  cases hstart : input.windowStart window with
  | none => simpa only [hstart] using h
  | some start =>
    simp only [hstart] at h ⊢
    cases hbegin : datetimeOf (start - input.offset * 1000000) with
    | none => simpa only [hbegin] using h
    | some windowStart =>
      cases hend : datetimeOf input.occurredAt with
      | none => simpa only [hbegin, hend] using h
      | some windowEnd =>
        simp only [hbegin, hend] at h
        cases h

/-- A velocity depends on the rows through the statement's answer alone. -/
theorem velocity_of_aggregates {rows rows' : List TransactionRecord} {input : ScoreInput} {window : ℕ}
    (h : velocityAggregates rows input.userId (input.occurredAt - window * 1000000) input.occurredAt input.excludeTransactionId
        input.currency =
      velocityAggregates rows' input.userId (input.occurredAt - window * 1000000) input.occurredAt input.excludeTransactionId
        input.currency) : input.velocity rows window = input.velocity rows' window := by
  cases hv : input.velocity rows window with
  | error error => exact (velocity_error_rows hv rows').symm
  | ok velocity =>
    obtain ⟨hheld, hvelocity⟩ := velocity_eq_ok.mp hv
    exact (velocity_eq_ok.mpr ⟨hheld, hvelocity.trans h⟩).symm

/-- The window of an event, whose time is in UTC, is held when it starts after the first year does. -/
theorem windowHeld_ofEvent {event : TransactionCreatedV1} {window : ℕ}
    (hstart : datetimeMin + window * 1000000 ≤ event.occurredAt) (hmax : event.occurredAt ≤ datetimeMax) :
    WindowHeld (.ofEvent event) window := by
  have hwall : (ScoreInput.ofEvent event).wall = event.occurredAt := rfl
  have hinstant : (ScoreInput.ofEvent event).occurredAt = event.occurredAt := by simp [ScoreInput.occurredAt, ScoreInput.ofEvent]
  refine ⟨⟨?_, ?_⟩, ?_, ?_⟩
  · linarith
  · linarith
  · linarith
  · linarith

end TimestampsAux

open TimestampsAux

namespace TimestampsExample

/-- `0001-01-01T00:00:00+01:00`: the first hour of the calendar, an hour before it in UTC. -/
def firstHour : AwareDatetime := ⟨datetimeMin, 3600, by decide, by decide⟩

/-- That timestamp as it is written. -/
def firstHourText : PyStr := PyStr.ofString "0001-01-01T00:00:00+01:00"

/-- A reader that reads that timestamp, and refuses every other value. -/
def reader : EventReader :=
  { ParsingExample.reader with
    aware := fun v =>
      match v with
      | .str s => if s = firstHourText then .ok firstHour else .error "Input should be a valid datetime"
      | _ => .error "Input should be a valid datetime" }

/-- An event of which only the version, written as `1.0`, and the time are there. -/
def entries : List (PyStr × DecimalJson) :=
  [(PyStr.ofString "schema_version", .decimal ⟨10, -1⟩), (PyStr.ofString "occurred_at", .str firstHourText)]

/-- A request for the same time. -/
def request : EvaluateRequest where
  userId := ⟨2⟩
  amount := TypeSoundnessExample.event.amount
  currency := "ZAR"
  category := "GROCERIES"
  occurredAt := some firstHour
  channel := none
  country := none
  enrichment := none
  transactionId := none

theorem version : supportedVersion (DecimalJson.lookup entries "schema_version") = some true := by decide

theorem occurredAt : DecimalJson.lookup entries "occurred_at" = some (.str firstHourText) := by
  have hne : (PyStr.ofString "schema_version" == PyStr.ofString "occurred_at") = false := by decide
  simp [DecimalJson.lookup, entries, hne]

end TimestampsExample

end FraudDetection
