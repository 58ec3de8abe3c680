import Mathlib.Algebra.Order.Floor.Ring
import Mathlib.Algebra.Order.Field.Power
import Mathlib.Algebra.Order.Field.Rat
import Mathlib.Data.Int.Log
import Mathlib.Data.Rat.Floor
import Mathlib.Tactic.Positivity
import Mathlib.Tactic.Ring
import Mathlib.Tactic.Linarith

/-!
# Doubles that are not negative

The doubles of IEEE 754 from zero to infinity, by value, with the product of two of them rounded to the nearest one, a tie to the
even one. A rounded product never passes a double that the exact product does not pass (`round_le`, `le_round`).
-/

/-- A double that is neither negative nor a NaN, by value. -/
inductive Binary64 where
  | finite (value : ℚ)
  | infinity
  deriving DecidableEq

namespace Binary64

/-- The exponent of the last place of a positive number: 53 digits, and none below `2 ^ -1074`. -/
def lastPlace (q : ℚ) : ℤ := max (Int.log 2 q - 52) (-1074)

/-- The whole number nearest to `q`, a tie to the even one. -/
def nearestEven (q : ℚ) : ℤ :=
  let r := q - ⌊q⌋
  if r < 1 / 2 then ⌊q⌋
  else if 1 / 2 < r then ⌊q⌋ + 1
  else if ⌊q⌋ % 2 = 0 then ⌊q⌋ else ⌊q⌋ + 1

/-- A number that is not negative, rounded to 53 digits whatever its size. -/
def round (q : ℚ) : ℚ := nearestEven (q / (2 : ℚ) ^ lastPlace q) * (2 : ℚ) ^ lastPlace q

/-- Where the finite doubles end. -/
def bound : ℚ := 2 ^ 1024

/-- The double nearest to a number that is not negative. -/
def ofRat (q : ℚ) : Binary64 := if round q < bound then .finite (round q) else .infinity

/-- A product with a positive number. -/
def scale : Binary64 → ℚ → Binary64
  | .finite q, factor => ofRat (q * factor)
  | .infinity, _ => .infinity

/-- `min(a, b)`: the first, unless the second is less. -/
def min : Binary64 → Binary64 → Binary64
  | .finite a, .finite b => if b < a then .finite b else .finite a
  | .infinity, b => b
  | .finite a, .infinity => .finite a

/-- `a <= b`. -/
def le : Binary64 → Binary64 → Bool
  | .finite a, .finite b => decide (a ≤ b)
  | .infinity, .finite _ => false
  | _, .infinity => true

/-- The least positive double. -/
def least : ℚ := (2 : ℚ) ^ (-1074 : ℤ)

/-- The value, infinity being above every number. -/
def toTop : Binary64 → WithTop ℚ
  | .finite q => q
  | .infinity => ⊤

/-- A number of 53 digits that is a multiple of the least double. -/
def Representable (q : ℚ) : Prop := ∃ (m : ℕ) (e : ℤ), m < 2 ^ 53 ∧ -1074 ≤ e ∧ q = m * (2 : ℚ) ^ e

/-- The value of a positive double is one. -/
def IsPositive : Binary64 → Prop
  | .finite q => 0 < q ∧ q < bound ∧ Representable q
  | .infinity => True

/-! ## Rounding to a whole number -/

theorem nearestEven_le {q : ℚ} {n : ℤ} (h : q ≤ n) : nearestEven q ≤ n := by
  have hfloor : ⌊q⌋ ≤ n := Int.floor_le_iff.mpr (lt_of_le_of_lt h (by linarith))
  have hup : 1 / 2 ≤ q - ⌊q⌋ → ⌊q⌋ + 1 ≤ n := by
    intro hr
    have hlt : (⌊q⌋ : ℚ) < n := by linarith
    exact_mod_cast hlt
  unfold nearestEven
  simp only
  split_ifs with h1 h2 h3
  · exact hfloor
  · exact hup h2.le
  · exact hfloor
  · exact hup (not_lt.mp h1)

theorem le_nearestEven {q : ℚ} {n : ℤ} (h : n ≤ q) : n ≤ nearestEven q := by
  have hfloor : n ≤ ⌊q⌋ := Int.le_floor.mpr h
  unfold nearestEven
  simp only
  split_ifs <;> omega

/-! ## Rounding to 53 digits -/

theorem pow_log_le {q : ℚ} (hq : 0 < q) : (2 : ℚ) ^ Int.log 2 q ≤ q := by
  exact_mod_cast Int.zpow_log_le_self (by norm_num : 1 < 2) hq

/-- A double whose last place is below that of `q` is less than every number of that size. -/
theorem lt_of_lastPlace {q : ℚ} (hq : 0 < q) {m : ℕ} {e : ℤ} (hm : m < 2 ^ 53) (he : -1074 ≤ e) (hlt : e < lastPlace q) :
    (m : ℚ) * (2 : ℚ) ^ e < (2 : ℚ) ^ (52 : ℕ) * (2 : ℚ) ^ lastPlace q ∧
      (2 : ℚ) ^ (52 : ℕ) * (2 : ℚ) ^ lastPlace q ≤ q := by
  have h2 : (2 : ℚ) ≠ 0 := by norm_num
  have hplace : lastPlace q = Int.log 2 q - 52 := by
    unfold lastPlace at hlt ⊢
    omega
  constructor
  · have hm' : (m : ℚ) < (2 : ℚ) ^ (53 : ℤ) := by exact_mod_cast hm
    calc (m : ℚ) * (2 : ℚ) ^ e < (2 : ℚ) ^ (53 : ℤ) * (2 : ℚ) ^ e := by gcongr
      _ = (2 : ℚ) ^ (53 + e) := (zpow_add₀ h2 _ _).symm
      _ ≤ (2 : ℚ) ^ (52 + lastPlace q) := zpow_le_zpow_right₀ (by norm_num) (by omega)
      _ = (2 : ℚ) ^ (52 : ℕ) * (2 : ℚ) ^ lastPlace q := by rw [zpow_add₀ h2]; norm_cast
  · calc (2 : ℚ) ^ (52 : ℕ) * (2 : ℚ) ^ lastPlace q = (2 : ℚ) ^ (52 + lastPlace q) := by rw [zpow_add₀ h2]; norm_cast
      _ = (2 : ℚ) ^ Int.log 2 q := by rw [hplace]; congr 1; ring
      _ ≤ q := pow_log_le hq

/-- A double at the last place of `q`, in units of that place. -/
theorem eq_units {q : ℚ} {m : ℕ} {e : ℤ} (hle : lastPlace q ≤ e) :
    (m : ℚ) * (2 : ℚ) ^ e = ((m * 2 ^ (e - lastPlace q).toNat : ℤ) : ℚ) * (2 : ℚ) ^ lastPlace q := by
  have h2 : (2 : ℚ) ≠ 0 := by norm_num
  have hk : (((e - lastPlace q).toNat : ℕ) : ℤ) = e - lastPlace q := by omega
  push_cast
  rw [mul_assoc, ← zpow_natCast, hk, ← zpow_add₀ h2, sub_add_cancel]

/-- Rounding does not pass a double above. -/
theorem round_le {q y : ℚ} (hq : 0 < q) (hy : Representable y) (h : q ≤ y) : round q ≤ y := by
  obtain ⟨m, e, hm, he, rfl⟩ := hy
  have hp : (0 : ℚ) < (2 : ℚ) ^ lastPlace q := by positivity
  rcases lt_or_ge e (lastPlace q) with hlt | hle
  · obtain ⟨h1, h2⟩ := lt_of_lastPlace hq hm he hlt
    linarith
  · rw [eq_units hle] at h ⊢
    unfold round
    refine mul_le_mul_of_nonneg_right ?_ hp.le
    exact_mod_cast nearestEven_le ((div_le_iff₀ hp).mpr h)

/-- Rounding does not pass a double below. -/
theorem le_round {q y : ℚ} (hq : 0 < q) (hy : Representable y) (h : y ≤ q) : y ≤ round q := by
  obtain ⟨m, e, hm, he, rfl⟩ := hy
  have hp : (0 : ℚ) < (2 : ℚ) ^ lastPlace q := by positivity
  unfold round
  rcases lt_or_ge e (lastPlace q) with hlt | hle
  · obtain ⟨h1, h2⟩ := lt_of_lastPlace hq hm he hlt
    refine le_trans h1.le (mul_le_mul_of_nonneg_right ?_ hp.le)
    have hn : ((2 ^ 52 : ℤ) : ℚ) ≤ q / (2 : ℚ) ^ lastPlace q := by
      rw [le_div_iff₀ hp]
      exact_mod_cast h2
    exact_mod_cast le_nearestEven hn
  · rw [eq_units hle] at h ⊢
    refine mul_le_mul_of_nonneg_right ?_ hp.le
    exact_mod_cast le_nearestEven ((le_div_iff₀ hp).mpr h)

/-- A double is its own rounding. -/
theorem round_of_representable {q : ℚ} (hq : 0 < q) (h : Representable q) : round q = q :=
  le_antisymm (round_le hq h le_rfl) (le_round hq h le_rfl)

/-- Doubling loses nothing. -/
theorem representable_mul_pow {q : ℚ} (h : Representable q) (k : ℕ) : Representable (q * 2 ^ k) := by
  obtain ⟨m, e, hm, he, rfl⟩ := h
  refine ⟨m, e + k, hm, by omega, ?_⟩
  rw [zpow_add₀ (by norm_num), zpow_natCast]
  ring

/-! ## Halving -/

theorem least_pos : 0 < least := by
  unfold least
  positivity

/-- Halving loses nothing, but for the last digit of an odd multiple of the least double. -/
theorem representable_half {q : ℚ} (h : Representable q) :
    Representable (q / 2) ∨ ∃ m : ℕ, 2 * m + 1 < 2 ^ 53 ∧ q = (2 * m + 1 : ℕ) * least := by
  obtain ⟨m, e, hm, he, rfl⟩ := h
  rcases eq_or_lt_of_le he with rfl | hlt
  · rcases Nat.even_or_odd' m with ⟨n, rfl | rfl⟩
    · refine Or.inl ⟨n, -1074, by omega, le_rfl, ?_⟩
      generalize (2 : ℚ) ^ (-1074 : ℤ) = place
      push_cast
      ring
    · exact Or.inr ⟨n, hm, rfl⟩
  · refine Or.inl ⟨m, e - 1, hm, by omega, ?_⟩
    rw [zpow_sub₀ (by norm_num), zpow_one]
    ring

/-- An odd multiple of the least double that is a double has 53 digits. -/
theorem odd_lt {m : ℕ} (h : Representable ((2 * m + 1 : ℕ) * least)) : 2 * m + 1 < 2 ^ 53 := by
  obtain ⟨n, e, hn, he, heq⟩ := h
  have hk : (((e + 1074).toNat : ℕ) : ℤ) = e + 1074 := by omega
  have hunits : ((2 * m + 1 : ℕ) : ℚ) = (n * 2 ^ (e + 1074).toNat : ℕ) := by
    refine mul_right_cancel₀ least_pos.ne' ?_
    rw [heq]
    push_cast
    unfold least
    rw [mul_assoc, ← zpow_natCast, hk, ← zpow_add₀ (by norm_num), add_neg_cancel_right]
  have hnat : 2 * m + 1 = n * 2 ^ (e + 1074).toNat := by exact_mod_cast hunits
  rcases Nat.eq_zero_or_pos (e + 1074).toNat with hz | hpos
  · rw [hz, pow_zero, mul_one] at hnat
    omega
  · -- a higher exponent makes an even multiple
    obtain ⟨k, hk'⟩ := Nat.exists_eq_succ_of_ne_zero (by omega : (e + 1074).toNat ≠ 0)
    rw [hk', pow_succ, ← mul_assoc] at hnat
    omega

/-- Small numbers are rounded to multiples of the least double. -/
theorem round_small {q : ℚ} (hq : 0 < q) (h : q < (2 : ℚ) ^ (53 : ℕ) * least) : round q = nearestEven (q / least) * least := by
  have hplace : lastPlace q = -1074 := by
    have hlog : Int.log 2 q < -1021 := by
      refine (zpow_lt_zpow_iff_right₀ (by norm_num : (1 : ℚ) < 2)).mp (lt_of_le_of_lt (pow_log_le hq) (lt_of_lt_of_eq h ?_))
      unfold least
      rw [← zpow_natCast, ← zpow_add₀ (by norm_num)]
      rfl
    unfold lastPlace
    omega
  unfold round
  rw [hplace]
  rfl

/-- A tie, or more, above an odd number is rounded up. -/
theorem le_nearestEven_of_odd {q : ℚ} {n : ℤ} (hn : n % 2 = 1) (h : n + 1 / 2 ≤ q) : n + 1 ≤ nearestEven q := by
  have hfloor : n ≤ ⌊q⌋ := Int.le_floor.mpr (by linarith)
  unfold nearestEven
  simp only
  rcases eq_or_lt_of_le hfloor with heq | hlt
  · rw [← heq]
    split_ifs with h1 h2 h3
    · linarith
    · exact le_rfl
    · omega
    · exact le_rfl
  · split_ifs <;> omega

/-- A tie above an even number is rounded down. -/
theorem nearestEven_of_even {n : ℤ} (hn : n % 2 = 0) : nearestEven (n + 1 / 2) = n := by
  have hfloor : ⌊(n : ℚ) + 1 / 2⌋ = n := by
    rw [Int.floor_eq_iff]
    constructor <;> linarith
  unfold nearestEven
  simp only [hfloor]
  rw [if_neg (by linarith), if_neg (by linarith), if_pos hn]

end Binary64
