import FraudDetection.Scoring
import FraudDetection.Theorems.Decisions
import FraudDetection.Theorems.RoundTrip
import FraudDetection.Theorems.Timestamps
import Mathlib.Algebra.BigOperators.Group.Finset.Basic

/-!
# The velocity of a transaction

`score_transaction` asks for the count and the sum of a user's other transactions in a window that ends at the transaction's own
time. Which transaction is the one being scored is said by its id, and a hypothetical one without an id is given the nil UUID. Here:
the count and the sum are the ones of the window, exactly unless the nil UUID is the id of a stored transaction in it.
-/

namespace FraudDetection

/-- A transaction is one of a user's in the window of a score, both ends included. -/
def InWindow (input : ScoreInput) (window : ℕ) (row : TransactionRecord) : Prop :=
  row.userId = input.userId ∧ input.occurredAt - window * 1000000 ≤ row.occurredAt ∧ row.occurredAt ≤ input.occurredAt

instance (input : ScoreInput) (window : ℕ) (row : TransactionRecord) : Decidable (InWindow input window row) := by
  unfold InWindow
  infer_instance

/-- The stored transactions of the user in the window, other than the one being scored. -/
def otherTransactions (rows : List TransactionRecord) (input : ScoreInput) (window : ℕ) : Finset TransactionRecord :=
  rows.toFinset.filter fun row => InWindow input window row ∧ some row.transactionId ≠ input.transactionId

/-- A count and a sum are those of the other transactions in the window, the sum of the ones in the same currency. -/
def VelocityExact (rows : List TransactionRecord) (input : ScoreInput) (window priorCount : ℕ) (priorAmount : Decimal) : Prop :=
  priorCount = (otherTransactions rows input window).card ∧
    priorAmount.toRat =
      ∑ row ∈ (otherTransactions rows input window).filter (fun row => row.currency = input.currency), row.amount.value.toRat

namespace VelocityAux

/-- The sum of some amounts is exact. -/
theorem sumAmounts_toRat (amounts : List Money) : (sumAmounts amounts).toRat = (amounts.map fun m => m.value.toRat).sum := by
  have hsum : (((amounts.map fun m => (m.units : ℤ)).sum : ℤ) : ℚ) * (10 : ℚ) ^ (-2 : ℤ) =
      (amounts.map fun m => m.value.toRat).sum := by
    induction amounts with
    | nil => simp
    | cons m amounts ih =>
      rw [List.map_cons, List.sum_cons, List.map_cons, List.sum_cons, ← ih, m.toQuantity.toRat_eq]
      push_cast
      norm_num
      ring
  rw [← hsum]
  cases amounts with
  | nil => simp [sumAmounts, Decimal.toRat, Decimal.ofInt]
  | cons m amounts => rfl

/-- The rows the velocity query takes. -/
def matching (rows : List TransactionRecord) (input : ScoreInput) (window : ℕ) : List TransactionRecord :=
  rows.filter fun row => decide (InWindow input window row) && decide (row.transactionId ≠ input.excludeTransactionId)

/-- The statement counts the rows it takes, and sums those in the same currency. -/
theorem velocityAggregates_matching (rows : List TransactionRecord) (input : ScoreInput) (window : ℕ) :
    velocityAggregates rows input.userId (input.occurredAt - window * 1000000) input.occurredAt input.excludeTransactionId
        input.currency =
      ((matching rows input window).length,
        sumAmounts (((matching rows input window).filter fun row => row.currency = input.currency).map (·.amount))) := by
  have hm : matching rows input window = rows.filter fun row =>
      decide (row.userId = input.userId) && decide (input.occurredAt - window * 1000000 ≤ row.occurredAt) &&
        decide (row.occurredAt ≤ input.occurredAt) && decide (row.transactionId ≠ input.excludeTransactionId) := by
    unfold matching
    refine List.filter_congr fun row _ => ?_
    rw [Bool.eq_iff_iff]
    simp only [Bool.and_eq_true, decide_eq_true_eq]
    unfold InWindow
    tauto
  unfold velocityAggregates
  rw [← hm]

theorem velocity_eq {rows : List TransactionRecord} {input : ScoreInput} {window priorCount : ℕ} {priorAmount : Decimal}
    (h : input.velocity rows window = .ok (priorCount, priorAmount)) :
    priorCount = (matching rows input window).length ∧
      priorAmount = sumAmounts (((matching rows input window).filter fun row => row.currency = input.currency).map (·.amount)) := by
  obtain ⟨-, hvelocity⟩ := TimestampsAux.velocity_eq_ok.mp h
  rw [velocityAggregates_matching] at hvelocity
  exact Prod.mk.inj hvelocity

/-- On rows that the query does not leave out by the nil UUID alone, it takes the other transactions. -/
theorem matching_toFinset {rows : List TransactionRecord} {input : ScoreInput} {window : ℕ}
    (hnil : input.transactionId = none → ∀ row ∈ rows, InWindow input window row → row.transactionId ≠ ⟨0⟩) :
    (matching rows input window).toFinset = otherTransactions rows input window := by
  unfold matching otherTransactions
  rw [List.toFinset_filter]
  refine Finset.filter_congr fun row hrow => ?_
  rw [List.mem_toFinset] at hrow
  simp only [Bool.and_eq_true, decide_eq_true_eq]
  refine and_congr_right fun hin => ?_
  unfold ScoreInput.excludeTransactionId
  cases hid : input.transactionId with
  | none => simpa using hnil hid row hrow hin
  | some id => simp

/-- Where the nil UUID is the id of a stored transaction in the window, the query without an id takes one row too few. -/
theorem matching_card_lt {rows : List TransactionRecord} (hnodup : rows.Nodup) {input : ScoreInput} {window : ℕ}
    (hid : input.transactionId = none) {row : TransactionRecord} (hrow : row ∈ rows) (hin : InWindow input window row)
    (hnil : row.transactionId = ⟨0⟩) : (matching rows input window).length < (otherTransactions rows input window).card := by
  have hm : (matching rows input window).Nodup := hnodup.filter _
  rw [← List.toFinset_card_of_nodup hm]
  refine Finset.card_lt_card (Finset.ssubset_iff_subset_ne.mpr ⟨?_, ?_⟩)
  · intro r hr
    unfold matching at hr
    rw [List.mem_toFinset, List.mem_filter, Bool.and_eq_true, decide_eq_true_eq] at hr
    unfold otherTransactions
    rw [Finset.mem_filter, List.mem_toFinset, hid]
    exact ⟨hr.1, hr.2.1, by simp⟩
  · intro heq
    have hother : row ∈ otherTransactions rows input window := by
      unfold otherTransactions
      rw [Finset.mem_filter, List.mem_toFinset, hid]
      exact ⟨hrow, hin, by simp⟩
    rw [← heq] at hother
    unfold matching ScoreInput.excludeTransactionId at hother
    rw [List.mem_toFinset, List.mem_filter, hid] at hother
    simp [hnil] at hother

end VelocityAux

open VelocityAux

/-- In every table that any concurrent calls of `record_decision` can leave behind, and for every transaction to be scored and every
window: `score_transaction` computes a count and a sum, and they are exactly those of the user's other transactions in the window, if
and only if a `datetime` can hold the ends of the window, in wall-clock time and in UTC, and, when the transaction has no id, none of the
user's in the window is stored under the nil UUID. -/
theorem velocity_exact_iff {data : Position → TransactionData} {s : DecisionsState} (h : (decisions data).Reachable s)
    (input : ScoreInput) (window : ℕ) :
    (∃ priorCount priorAmount, input.velocity (s.transactions.rows.map (·.record)) window = .ok (priorCount, priorAmount) ∧
        VelocityExact (s.transactions.rows.map (·.record)) input window priorCount priorAmount) ↔
      WindowHeld input window ∧
      (input.transactionId = none → ∀ t ∈ s.transactions.rows, InWindow input window t.record → t.record.transactionId ≠ ⟨0⟩) := by
  have hnodup := DecisionsAux.records_nodup h
  have hforall : (∀ t ∈ s.transactions.rows, InWindow input window t.record → t.record.transactionId ≠ ⟨0⟩) ↔
      ∀ row ∈ s.transactions.rows.map (·.record), InWindow input window row → row.transactionId ≠ ⟨0⟩ := by
    simp
  rw [hforall]
  constructor
  · rintro ⟨priorCount, priorAmount, hv, hcard, -⟩
    refine ⟨(TimestampsAux.velocity_eq_ok.mp hv).1, ?_⟩
    intro hid row hrow hin hnil
    have hlt := matching_card_lt hnodup hid hrow hin hnil
    have hcount := (velocity_eq hv).1
    omega
  · rintro ⟨hheld, hnil⟩
    obtain ⟨⟨priorCount, priorAmount⟩, hv⟩ : ∃ velocity, input.velocity (s.transactions.rows.map (·.record)) window = .ok velocity :=
      ⟨_, TimestampsAux.velocity_eq_ok.mpr ⟨hheld, rfl⟩⟩
    obtain ⟨hcount, hamount⟩ := velocity_eq hv
    have hset := matching_toFinset hnil
    have hm : (matching (s.transactions.rows.map (·.record)) input window).Nodup := hnodup.filter _
    refine ⟨priorCount, priorAmount, hv, ?_, ?_⟩
    · rw [hcount, ← hset, List.toFinset_card_of_nodup hm]
    · rw [hamount, sumAmounts_toRat, List.map_map, ← hset]
      have hfilter := List.toFinset_filter (matching (s.transactions.rows.map (·.record)) input window)
        (fun row => decide (row.currency = input.currency))
      simp only [decide_eq_true_eq] at hfilter
      rw [← hfilter, List.sum_toFinset _ (hm.filter _)]
      rfl

namespace VelocityExample

/-- An event whose transaction id is the nil UUID. -/
def event : TransactionCreatedV1 where
  transactionId := ⟨0⟩
  userId := ⟨1⟩
  amount := DecisionsExample.amount
  currency := "ZAR"
  category := "GROCERIES"
  occurredAt := 0
  channel := none
  country := none
  correlationId := none
  enrichment := none

/-- The active rule set. -/
def ruleSet : RuleSet := ⟨"fraud-default", 1, RoundTripExample.whole, "hash", "", "", 0⟩

/-- The score of the event, the first of its user. -/
def score : Score := ⟨⟨[], 0, .approved⟩, 0, .ofInt 0⟩

theorem event_score : scoreTransaction [] ruleSet.definition (.ofEvent event) = .ok score := rfl

/-- The decision on the event. -/
def decision : TransactionDecision := transactionDecision event ruleSet score

/-- The event is recorded. -/
def events : List RecordEvent :=
  [.begin 0 ⟨decision, DecisionsExample.provenance 0⟩, .insertDecision 0 5, .insertHistory 0, .commit 0 true]

/-- Its row. -/
def row : TransactionRecord := transactionRecord decision 5

theorem recorded : ∃ s, (decisions fun _ => decision.data).Reachable s ∧ s.transactions.rows.map (·.record) = [row] := by
  have hr : ((decisions fun _ => decision.data).run .empty events).map (fun s => s.transactions.rows.map (·.record)) =
      some [row] := rfl
  obtain ⟨s, hs, hrows⟩ := Option.map_eq_some_iff.mp hr
  exact ⟨s, StepSystem.Reachable.run (.start rfl) hs, hrows⟩

/-- A dry run for the same user at the same time, with an id or without. -/
def dryRun (transactionId : Option Uuid) : ScoreInput where
  transactionId := transactionId
  userId := ⟨1⟩
  wall := 0
  offset := 0
  amount := DecisionsExample.amount
  currency := "ZAR"
  category := "GROCERIES"
  channel := none
  country := none
  enrichment := []

end VelocityExample

open VelocityExample in
/-- With an id, the stored transaction is counted, and its amount is added up. -/
theorem velocity_exact_iff_withId :
    ∃ s, (decisions fun _ => decision.data).Reachable s ∧ s.transactions.rows.map (·.record) = [row] ∧
      ((∃ priorCount priorAmount,
          (dryRun (some ⟨9⟩)).velocity (s.transactions.rows.map (·.record)) 60 = .ok (priorCount, priorAmount) ∧
            VelocityExact (s.transactions.rows.map (·.record)) (dryRun (some ⟨9⟩)) 60 priorCount priorAmount) ↔
        WindowHeld (dryRun (some ⟨9⟩)) 60 ∧
        ((dryRun (some ⟨9⟩)).transactionId = none →
          ∀ t ∈ s.transactions.rows, InWindow (dryRun (some ⟨9⟩)) 60 t.record → t.record.transactionId ≠ ⟨0⟩)) := by
  obtain ⟨s, hs, hrows⟩ := recorded
  exact ⟨s, hs, hrows, velocity_exact_iff hs (dryRun (some ⟨9⟩)) 60⟩

open VelocityExample in
/-- Without an id, a transaction stored under the nil UUID is left out. -/
theorem velocity_exact_false :
    ∃ s, (decisions fun _ => decision.data).Reachable s ∧
      (dryRun none).velocity (s.transactions.rows.map (·.record)) 60 = .ok (0, .ofInt 0) ∧
      ¬VelocityExact (s.transactions.rows.map (·.record)) (dryRun none) 60 0 (.ofInt 0) := by
  obtain ⟨s, hs, hrows⟩ := recorded
  refine ⟨s, hs, ?_, ?_⟩
  · rw [hrows]
    rfl
  · rintro ⟨hcount, -⟩
    have hmem : row ∈ otherTransactions (s.transactions.rows.map (·.record)) (dryRun none) 60 := by
      unfold otherTransactions
      rw [Finset.mem_filter, List.mem_toFinset, hrows]
      exact ⟨List.mem_singleton.mpr rfl, by decide, by simp [dryRun]⟩
    have := Finset.card_pos.mpr ⟨row, hmem⟩
    omega

end FraudDetection
