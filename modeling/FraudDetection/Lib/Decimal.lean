import Mathlib.Algebra.Order.Field.Rat
import Mathlib.Algebra.Order.Field.Power
import Mathlib.Tactic.Ring
import Mathlib.Tactic.Positivity
import Mathlib.Tactic.FieldSimp

/-!
# Decimal arithmetic in a context of fixed precision

The finite numbers of General Decimal Arithmetic, an integer coefficient and an exponent of ten, and the three operations a
context rounds: sum, product and negation. The context is the default one: 28 digits, half-even, exponents within ±999999,
and Overflow trapped. Its other trapped signals (InvalidOperation, DivisionByZero) cannot be raised by these operations on
finite numbers, and its untrapped ones (Inexact, Rounded, Subnormal, Underflow, Clamped) leave no trace in the result.

A number is compared by its value (`Decimal.toRat`), so the sign of a zero is not kept.
-/

/-- A finite decimal number: `coeff * 10 ^ exp`. -/
structure Decimal where
  coeff : ℤ
  exp : ℤ
  deriving DecidableEq, Repr

namespace Decimal

/-- The trapped signal an operation of the context can raise. -/
inductive Signal where
  | overflow
  deriving DecidableEq, Repr

/-- The number of digits the context rounds to. -/
def prec : ℕ := 28

/-- The largest adjusted exponent a result may have. -/
def emax : ℤ := 999999

/-- The smallest exponent of a subnormal result. -/
def etiny : ℤ := -1000026

/-- The largest exponent of a result of full precision. -/
def etop : ℤ := emax - prec + 1

/-- The exact value of a number. -/
def toRat (d : Decimal) : ℚ := d.coeff * (10 : ℚ) ^ d.exp

/-- A whole number, exactly. -/
def ofInt (n : ℤ) : Decimal := ⟨n, 0⟩

/-- The number of digits of the coefficient; zero has one digit. -/
def numDigits (c : ℤ) : ℕ := (Nat.toDigits 10 c.natAbs).length

/-- `c / 10 ^ k` rounded to the nearest whole number, a tie to the even one. -/
def roundHalfEven (c : ℤ) (k : ℕ) : ℤ :=
  let q := c.natAbs / 10 ^ k
  let r := c.natAbs % 10 ^ k
  let q := if 10 ^ k < 2 * r ∨ (2 * r = 10 ^ k ∧ q % 2 = 1) then q + 1 else q
  if c < 0 then -q else q

/-- A rounded result at exponent `e`, renormalised when the rounding carried into a new digit, unless it is too large. -/
def carry (c : ℤ) (e : ℤ) : Except Signal Decimal :=
  let d : Decimal := if prec < numDigits c then ⟨c / 10, e + 1⟩ else ⟨c, e⟩
  if etop < d.exp then .error .overflow else .ok d

/-- An exact result, rounded to the context. -/
def fix (d : Decimal) : Except Signal Decimal :=
  if d.coeff = 0 then
    .ok ⟨0, min (max d.exp etiny) emax⟩
  else
    let expMin := numDigits d.coeff + d.exp - prec
    if etop < expMin then
      .error .overflow
    else
      let expMin := max expMin etiny
      if d.exp < expMin then carry (roundHalfEven d.coeff (expMin - d.exp).toNat) expMin else .ok d

/-- The coefficient of a number written at a smaller or equal exponent. -/
def coeffAt (d : Decimal) (e : ℤ) : ℤ := d.coeff * 10 ^ (d.exp - e).toNat

/-- The sum before rounding. -/
def addExact (a b : Decimal) : Decimal :=
  let e := min a.exp b.exp
  ⟨a.coeffAt e + b.coeffAt e, e⟩

/-- The product before rounding. -/
def mulExact (a b : Decimal) : Decimal := ⟨a.coeff * b.coeff, a.exp + b.exp⟩

/-- The negation before rounding. -/
def negExact (a : Decimal) : Decimal := ⟨-a.coeff, a.exp⟩

/-- `a + b` in the context. -/
def add (a b : Decimal) : Except Signal Decimal := fix (addExact a b)

/-- `a * b` in the context. -/
def mul (a b : Decimal) : Except Signal Decimal := fix (mulExact a b)

/-- `-a` in the context. -/
def neg (a : Decimal) : Except Signal Decimal := fix (negExact a)

/-- `a - b` in the context. -/
def sub (a b : Decimal) : Except Signal Decimal := fix (addExact a (negExact b))

/-- `a < b`, by value. -/
def lt (a b : Decimal) : Bool :=
  let e := min a.exp b.exp
  decide (a.coeffAt e < b.coeffAt e)

/-- `a <= b`, by value. -/
def le (a b : Decimal) : Bool :=
  let e := min a.exp b.exp
  decide (a.coeffAt e ≤ b.coeffAt e)

/-- `a == b`, by value: `5 == 5.0`. -/
def eqv (a b : Decimal) : Bool :=
  let e := min a.exp b.exp
  decide (a.coeffAt e = b.coeffAt e)

/-! ## Comparisons and exact operations, by value -/

/-- Writing a number at a smaller exponent keeps its value. -/
theorem coeffAt_mul_zpow (d : Decimal) {e : ℤ} (h : e ≤ d.exp) : (d.coeffAt e : ℚ) * (10 : ℚ) ^ e = d.toRat := by
  have hk : ((d.exp - e).toNat : ℤ) + e = d.exp := by omega
  have h10 : (10 : ℚ) ≠ 0 := by norm_num
  calc (d.coeffAt e : ℚ) * (10 : ℚ) ^ e
      = d.coeff * ((10 : ℚ) ^ ((d.exp - e).toNat : ℤ) * (10 : ℚ) ^ e) := by
        simp only [coeffAt, Int.cast_mul, Int.cast_pow, Int.cast_ofNat, zpow_natCast]; ring
    _ = d.coeff * (10 : ℚ) ^ d.exp := by rw [← zpow_add₀ h10, hk]

theorem lt_iff (a b : Decimal) : a.lt b = true ↔ a.toRat < b.toRat := by
  have hp : (0 : ℚ) < (10 : ℚ) ^ min a.exp b.exp := by positivity
  rw [← coeffAt_mul_zpow a (min_le_left _ b.exp), ← coeffAt_mul_zpow b (min_le_right a.exp _), mul_lt_mul_iff_left₀ hp]
  simp [lt]

theorem le_iff (a b : Decimal) : a.le b = true ↔ a.toRat ≤ b.toRat := by
  have hp : (0 : ℚ) < (10 : ℚ) ^ min a.exp b.exp := by positivity
  rw [← coeffAt_mul_zpow a (min_le_left _ b.exp), ← coeffAt_mul_zpow b (min_le_right a.exp _), mul_le_mul_iff_left₀ hp]
  simp [le]

theorem eqv_iff (a b : Decimal) : a.eqv b = true ↔ a.toRat = b.toRat := by
  have hp : (10 : ℚ) ^ min a.exp b.exp ≠ 0 := by positivity
  rw [← coeffAt_mul_zpow a (min_le_left _ b.exp), ← coeffAt_mul_zpow b (min_le_right a.exp _), mul_left_inj' hp]
  simp [eqv]

end Decimal
