import FraudDetection.Lib.Decimal

/-!
# The `TransactionCreated` event

The event a message decodes to once `parse_transaction_event` has accepted it. A field's type states what its validator has
checked, as far as something here depends on it.
-/

namespace FraudDetection

/-- A UUID. -/
structure Uuid where
  value : BitVec 128
  deriving DecidableEq, Repr

/-- A point in time: microseconds from the epoch, in UTC. -/
abbrev Timestamp := ℤ

/-- A decimal that is not negative, of at most `digits` digits, `places` of them decimal places. -/
structure Quantity (digits places : ℕ) where
  value : Decimal
  fits : ∃ units : ℕ, units < 10 ^ digits ∧ value.toRat = units / 10 ^ places
  deriving DecidableEq, Repr

namespace Quantity

variable {digits places : ℕ}

/-- The value in units of the last decimal place. -/
def units (q : Quantity digits places) : ℕ :=
  let e := min q.value.exp (-places)
  (q.value.coeffAt e / 10 ^ (-places - e).toNat).toNat

theorem toRat_eq (q : Quantity digits places) : q.value.toRat = q.units / 10 ^ places := by
  obtain ⟨units, -, h⟩ := q.fits
  set e := min q.value.exp (-(places : ℤ)) with he
  have hle : e ≤ -(places : ℤ) := min_le_right _ _
  have h10 : (10 : ℚ) ≠ 0 := by norm_num
  -- at the smaller exponent the coefficient is a multiple of the unit
  have hc : q.value.coeffAt e = units * 10 ^ (-(places : ℤ) - e).toNat := by
    have hv := q.value.coeffAt_mul_zpow (min_le_left q.value.exp (-(places : ℤ)))
    rw [← he, h] at hv
    have hk : (((-(places : ℤ) - e).toNat : ℕ) : ℤ) = -(places : ℤ) - e := by omega
    have hz : (units : ℚ) / 10 ^ places = units * 10 ^ (-(places : ℤ) - e).toNat * (10 : ℚ) ^ e := by
      rw [mul_assoc, ← zpow_natCast _ (-(places : ℤ) - e).toNat, hk, ← zpow_add₀ h10, sub_add_cancel, zpow_neg, zpow_natCast]
      rfl
    rw [hz] at hv
    exact_mod_cast mul_right_cancel₀ (zpow_ne_zero e h10) hv
  have hu : q.units = units := by
    unfold Quantity.units
    simp only
    rw [← he, hc, Int.mul_ediv_cancel _ (by positivity), Int.toNat_natCast]
  rw [hu, h]

theorem units_lt (q : Quantity digits places) : q.units < 10 ^ digits := by
  obtain ⟨units, hlt, h⟩ := q.fits
  have heq : (q.units : ℚ) = units := by
    have hp : (10 : ℚ) ^ places ≠ 0 := by positivity
    exact (div_left_inj' hp).mp (q.toRat_eq.symm.trans h)
  exact_mod_cast (Nat.cast_injective heq) ▸ hlt

/-- Two quantities compare equal if they are the same number of units. -/
theorem eqv_iff (q r : Quantity digits places) : q.value.eqv r.value = true ↔ q.units = r.units := by
  have hp : (10 : ℚ) ^ places ≠ 0 := by positivity
  rw [Decimal.eqv_iff, toRat_eq, toRat_eq, div_left_inj' hp, Nat.cast_inj]

/-- The quantity as a `numeric` column holds it: with all its decimal places. -/
def stored (q : Quantity digits places) : Quantity digits places where
  value := ⟨q.units, -places⟩
  fits := ⟨q.units, q.units_lt, by
    unfold Decimal.toRat
    rw [zpow_neg, zpow_natCast]
    rfl⟩

theorem stored_toRat (q : Quantity digits places) : q.stored.value.toRat = q.value.toRat := by
  rw [q.toRat_eq]
  unfold stored Decimal.toRat
  simp only
  rw [zpow_neg, zpow_natCast]
  rfl

@[simp] theorem stored_units (q : Quantity digits places) : q.stored.units = q.units := by
  refine (eqv_iff q.stored q).mp ((Decimal.eqv_iff _ _).mpr q.stored_toRat)

end Quantity

/-- `Money`: a positive amount of at most 18 digits, two of them decimal places. -/
structure Money extends Quantity 18 2 where
  positive : 0 < value.toRat
  deriving DecidableEq, Repr

/-- An amount as a `numeric(18, 2)` column holds it. -/
def Money.stored (m : Money) : Money := ⟨m.toQuantity.stored, by rw [Quantity.stored_toRat]; exact m.positive⟩

@[simp] theorem Money.stored_units (m : Money) : m.stored.units = m.units := m.toQuantity.stored_units

/-- `Enrichment`: optional features computed upstream. -/
structure Enrichment where
  distanceFromLastTxKm : Option (Quantity 12 3)
  minutesSinceLastTx : Option ℕ
  userHistoricalAvgSpend : Option (Quantity 18 2)
  isNewMerchantForUser : Option Bool
  isTravelItineraryActive : Option Bool
  deriving DecidableEq, Repr

/-- A value of an enrichment feature. -/
inductive Feature where
  | decimal (value : Decimal)
  | int (value : ℕ)
  | bool (value : Bool)
  deriving DecidableEq, Repr

/-- `enrichment.model_dump(exclude_none=True)`. -/
def Enrichment.modelDump (e : Enrichment) : List (String × Feature) :=
  (e.distanceFromLastTxKm.map fun v => ("distance_from_last_tx_km", Feature.decimal v.value)).toList ++
  (e.minutesSinceLastTx.map fun v => ("minutes_since_last_tx", Feature.int v)).toList ++
  (e.userHistoricalAvgSpend.map fun v => ("user_historical_avg_spend", Feature.decimal v.value)).toList ++
  (e.isNewMerchantForUser.map fun v => ("is_new_merchant_for_user", Feature.bool v)).toList ++
  (e.isTravelItineraryActive.map fun v => ("is_travel_itinerary_active", Feature.bool v)).toList

/-- `TransactionCreatedV1`: version 1 of the event. `occurredAt` has been converted to UTC. -/
structure TransactionCreatedV1 where
  transactionId : Uuid
  userId : Uuid
  amount : Money
  currency : String
  category : String
  occurredAt : Timestamp
  channel : Option String
  country : Option String
  correlationId : Option String
  enrichment : Option Enrichment

end FraudDetection
