import FraudDetection.Lib.DecimalRounding
import Mathlib.Tactic.Linarith

/-!
# How large a result may be

The smallest magnitude that overflows the context, as a number (`overflowBound`): from half a unit in the last place above the largest
finite number on. And what rounding keeps of a magnitude: its sign, and every power of ten below it.
-/

namespace Decimal

/-- Half a unit above `99…9` of 28 digits at the largest exponent. -/
def overflowBound : ℚ := (10 ^ prec - 1 / 2) * (10 : ℚ) ^ etop

theorem ten_ne_zero : (10 : ℚ) ≠ 0 := by norm_num

theorem abs_toRat (d : Decimal) : |d.toRat| = (|d.coeff| : ℤ) * (10 : ℚ) ^ d.exp := by
  unfold toRat
  rw [abs_mul, abs_of_pos (by positivity : (0 : ℚ) < (10 : ℚ) ^ d.exp), Int.cast_abs]

/-- A number is below the power of ten after its leading digit. -/
theorem abs_toRat_lt (d : Decimal) : |d.toRat| < (10 : ℚ) ^ ((numDigits d.coeff : ℤ) + d.exp) := by
  have hlt : ((|d.coeff| : ℤ) : ℚ) < (10 : ℚ) ^ (numDigits d.coeff : ℤ) := by
    rw [zpow_natCast]
    exact_mod_cast abs_lt_pow_numDigits d.coeff
  rw [abs_toRat, zpow_add₀ ten_ne_zero]
  exact mul_lt_mul_of_pos_right hlt (by positivity)

/-- A number that is not zero is at least the power of ten of its leading digit. -/
theorem pow_le_abs_toRat {d : Decimal} (hd : d.coeff ≠ 0) :
    (10 : ℚ) ^ ((numDigits d.coeff : ℤ) + d.exp - 1) ≤ |d.toRat| := by
  have hpos := numDigits_pos d.coeff
  have hle : (10 : ℚ) ^ ((numDigits d.coeff : ℤ) - 1) ≤ ((|d.coeff| : ℤ) : ℚ) := by
    rw [show (numDigits d.coeff : ℤ) - 1 = ((numDigits d.coeff - 1 : ℕ) : ℤ) by omega, zpow_natCast]
    exact_mod_cast pow_numDigits_le_abs hd
  rw [abs_toRat, show (numDigits d.coeff : ℤ) + d.exp - 1 = (numDigits d.coeff : ℤ) - 1 + d.exp by ring, zpow_add₀ ten_ne_zero]
  exact mul_le_mul_of_nonneg_right hle (by positivity)

/-- A coefficient of the context's digits, at an exponent that does not make it larger than the context allows, is at most the
largest number. -/
theorem le_largest {c e : ℤ} (hc : |c| < 10 ^ prec) (hv : ((|c| : ℤ) : ℚ) * (10 : ℚ) ^ e < (10 : ℚ) ^ ((prec : ℤ) + etop)) :
    ((|c| : ℤ) : ℚ) * (10 : ℚ) ^ e ≤ (10 ^ prec - 1) * (10 : ℚ) ^ etop := by
  have hint : ∀ m : ℤ, m < 10 ^ prec → (m : ℚ) ≤ 10 ^ prec - 1 := by
    intro m hm
    have : m ≤ 10 ^ prec - 1 := by omega
    exact_mod_cast this
  have htop : (0 : ℚ) < (10 : ℚ) ^ etop := by positivity
  rcases le_total e etop with he | he
  · calc ((|c| : ℤ) : ℚ) * (10 : ℚ) ^ e ≤ ((|c| : ℤ) : ℚ) * (10 : ℚ) ^ etop := by
          refine mul_le_mul_of_nonneg_left (zpow_le_zpow_right₀ (by norm_num) he) ?_
          exact_mod_cast abs_nonneg c
      _ ≤ (10 ^ prec - 1) * (10 : ℚ) ^ etop := mul_le_mul_of_nonneg_right (hint _ hc) htop.le
  · -- with the zeros of the larger exponent it is a coefficient at the largest one
    have hk : (((e - etop).toNat : ℕ) : ℤ) + etop = e := by omega
    have hscaled : ((|c| : ℤ) : ℚ) * (10 : ℚ) ^ e = ((|c| * 10 ^ (e - etop).toNat : ℤ) : ℚ) * (10 : ℚ) ^ etop := by
      push_cast
      rw [mul_assoc, ← zpow_natCast, ← zpow_add₀ ten_ne_zero, hk]
    rw [hscaled] at hv ⊢
    rw [zpow_add₀ ten_ne_zero, zpow_natCast] at hv
    have hlt : ((|c| * 10 ^ (e - etop).toNat : ℤ) : ℚ) < 10 ^ prec := lt_of_mul_lt_mul_right hv htop.le
    exact mul_le_mul_of_nonneg_right (hint _ (by exact_mod_cast hlt)) htop.le

/-- Rounding away `k` digits carries into a new digit from half a unit below it on. -/
theorem le_natAbs_roundHalfEven {c : ℤ} {k m : ℕ} (hm : 2 ∣ m) (hpos : 0 < m) (h : c.natAbs < m * 10 ^ k) :
    m ≤ (roundHalfEven c k).natAbs ↔ (2 * m - 1) * 10 ^ k ≤ 2 * c.natAbs := by
  have hsign : ∀ q : ℕ, (if c < 0 then -(q : ℤ) else q).natAbs = q := by
    intro q
    split <;> omega
  have hdiv := Nat.div_add_mod c.natAbs (10 ^ k)
  have hmod := Nat.mod_lt c.natAbs (show 0 < 10 ^ k by positivity)
  have hq : c.natAbs / 10 ^ k < m := Nat.div_lt_of_lt_mul (by rwa [mul_comm])
  unfold roundHalfEven
  simp only [hsign]
  set q := c.natAbs / 10 ^ k
  set r := c.natAbs % 10 ^ k
  set p := 10 ^ k
  obtain ⟨half, rfl⟩ := hm
  have hexpand : (2 * (2 * half) - 1) * p = 4 * (half * p) - p := by
    rw [Nat.sub_mul, one_mul]
    ring_nf
  rw [hexpand]
  by_cases hlast : q = 2 * half - 1
  · -- the largest quotient is odd, so a tie goes up
    have hprod : p * q + p = 2 * (half * p) := by
      rw [hlast, ← Nat.mul_succ, Nat.succ_eq_add_one, Nat.sub_add_cancel hpos]
      ring
    split
    · rename_i hup
      constructor
      · intro _
        omega
      · intro _
        omega
    · rename_i hdown
      constructor
      · intro hle
        omega
      · intro hle
        exfalso
        refine hdown ?_
        omega
  · have hprod : p * q + 2 * p ≤ 2 * (half * p) := by
      have : p * (q + 2) ≤ p * (2 * half) := Nat.mul_le_mul_left p (by omega)
      calc p * q + 2 * p = p * (q + 2) := by ring
        _ ≤ p * (2 * half) := this
        _ = 2 * (half * p) := by ring
    split
    · constructor
      · intro hle
        omega
      · intro hle
        omega
    · constructor
      · intro hle
        omega
      · intro hle
        omega

theorem overflows_iff_fix (d : Decimal) : d.Overflows ↔ fix d = .error .overflow := by
  rw [fix_eq]
  by_cases h : d.Overflows
  · rw [if_pos h]
    exact iff_of_true h rfl
  · rw [if_neg h]
    exact iff_of_false h nofun

/-- An exact result overflows from the bound on. -/
theorem overflows_iff (d : Decimal) : d.Overflows ↔ overflowBound ≤ |d.toRat| := by
  have htop : (0 : ℚ) < (10 : ℚ) ^ etop := by positivity
  have hprec : (prec : ℤ) = 28 := rfl
  have htiny : etiny < etop := by decide
  have hp : (1 : ℚ) ≤ 10 ^ prec := one_le_pow₀ (by norm_num)
  have hbelow : ∀ v : ℚ, v ≤ (10 ^ prec - 1) * (10 : ℚ) ^ etop → ¬overflowBound ≤ v := by
    intro v hv hle
    have : (10 ^ prec - 1) * (10 : ℚ) ^ etop < overflowBound := mul_lt_mul_of_pos_right (by linarith) htop
    linarith
  rw [overflows_iff_fix]
  unfold fix
  by_cases hz : d.coeff = 0
  · rw [if_pos hz]
    refine iff_of_false nofun (hbelow _ ?_)
    rw [abs_toRat, hz, abs_zero, Int.cast_zero, zero_mul]
    exact mul_nonneg (by linarith) htop.le
  rw [if_neg hz]
  simp only
  by_cases hlarge : etop < (numDigits d.coeff : ℤ) + d.exp - prec
  · -- the leading digit alone is too large
    rw [if_pos hlarge]
    refine iff_of_true rfl ?_
    calc overflowBound ≤ 10 ^ prec * (10 : ℚ) ^ etop := mul_le_mul_of_nonneg_right (by linarith) htop.le
      _ = (10 : ℚ) ^ ((prec : ℤ) + etop) := by rw [zpow_add₀ ten_ne_zero, zpow_natCast]
      _ ≤ (10 : ℚ) ^ ((numDigits d.coeff : ℤ) + d.exp - 1) := zpow_le_zpow_right₀ (by norm_num) (by omega)
      _ ≤ |d.toRat| := pow_le_abs_toRat hz
  rw [if_neg hlarge]
  have hlt := abs_toRat_lt d
  have hle : |d.toRat| < (10 : ℚ) ^ ((prec : ℤ) + etop) :=
    lt_of_lt_of_le hlt (zpow_le_zpow_right₀ (by norm_num) (by omega))
  by_cases hshort : d.exp < max ((numDigits d.coeff : ℤ) + d.exp - prec) etiny
  · rw [if_pos hshort, carry_eq]
    have hexp : ∀ c e : ℤ, (renormalised c e).exp = if prec < numDigits c then e + 1 else e := by
      intro c e
      unfold renormalised
      split <;> rfl
    rw [hexp]
    by_cases hmax : max ((numDigits d.coeff : ℤ) + d.exp - prec) etiny = etop
    · -- at the largest exponent a carry is an overflow
      have hn : (numDigits d.coeff : ℤ) + d.exp - prec = etop := by omega
      obtain ⟨k, hk⟩ : ∃ k : ℕ, (k : ℤ) = etop - d.exp := ⟨(etop - d.exp).toNat, by omega⟩
      have hk' : (etop - d.exp).toNat = k := by omega
      have hdigits : numDigits d.coeff = prec + k := by omega
      have hsmall : d.coeff.natAbs < 10 ^ prec * 10 ^ k := by
        have := abs_lt_pow_numDigits d.coeff
        rw [hdigits, Int.abs_eq_natAbs, pow_add] at this
        exact_mod_cast this
      have hcarry := le_natAbs_roundHalfEven (by decide) (by positivity) hsmall
      rw [hmax, hk']
      have hlong : prec < numDigits (roundHalfEven d.coeff k) ↔ 10 ^ prec ≤ (roundHalfEven d.coeff k).natAbs := by
        rw [← not_le, numDigits_le_iff (by decide), not_lt, Int.abs_eq_natAbs]
        exact_mod_cast Iff.rfl
      have hbound : overflowBound ≤ |d.toRat| ↔ (2 * 10 ^ prec - 1) * 10 ^ k ≤ 2 * d.coeff.natAbs := by
        have hscale : (10 : ℚ) ^ etop = 10 ^ k * (10 : ℚ) ^ d.exp := by
          rw [← zpow_natCast, hk, ← zpow_add₀ ten_ne_zero, sub_add_cancel]
        have hexp0 : (0 : ℚ) < (10 : ℚ) ^ d.exp := by positivity
        rw [abs_toRat, overflowBound, hscale, ← mul_assoc, mul_le_mul_iff_left₀ hexp0, Int.abs_eq_natAbs]
        have hcast : (((2 * 10 ^ prec - 1) * 10 ^ k : ℕ) : ℚ) = (2 * 10 ^ prec - 1) * 10 ^ k := by
          rw [Nat.cast_mul, Nat.cast_sub (by decide)]
          push_cast
          ring
        rw [← @Nat.cast_le ℚ, hcast]
        generalize d.coeff.natAbs = a
        push_cast
        constructor
        · intro h
          linarith
        · intro h
          linarith
      rw [hbound, ← hcarry, ← hlong]
      by_cases hcarried : prec < numDigits (roundHalfEven d.coeff k)
      · rw [if_pos hcarried, if_pos (by omega)]
        exact iff_of_true rfl hcarried
      · rw [if_neg hcarried, if_neg (by omega)]
        exact iff_of_false nofun hcarried
    · -- below it there is room for a carry
      have hroom : ¬etop < if prec < numDigits (roundHalfEven d.coeff
          (max ((numDigits d.coeff : ℤ) + d.exp - prec) etiny - d.exp).toNat)
          then max ((numDigits d.coeff : ℤ) + d.exp - prec) etiny + 1
          else max ((numDigits d.coeff : ℤ) + d.exp - prec) etiny := by
        split <;> omega
      rw [if_neg hroom]
      refine iff_of_false nofun (hbelow _ (le_trans hlt.le ?_))
      calc (10 : ℚ) ^ ((numDigits d.coeff : ℤ) + d.exp) ≤ (10 : ℚ) ^ (27 + etop) := zpow_le_zpow_right₀ (by norm_num) (by omega)
        _ = (10 : ℚ) ^ (27 : ℤ) * (10 : ℚ) ^ etop := zpow_add₀ ten_ne_zero _ _
        _ ≤ (10 ^ prec - 1) * (10 : ℚ) ^ etop := by
          refine mul_le_mul_of_nonneg_right ?_ htop.le
          rw [show (10 : ℚ) ^ prec = 10 ^ 28 from rfl]
          norm_num
  · rw [if_neg hshort]
    refine iff_of_false nofun (hbelow _ ?_)
    have hdigits : |d.coeff| < 10 ^ prec := (numDigits_le_iff (by decide)).mp (by omega)
    rw [abs_toRat] at hle ⊢
    exact le_largest hdigits hle

/-! ## What rounding keeps -/

theorem roundHalfEven_nonneg {c : ℤ} (hc : 0 ≤ c) (k : ℕ) : 0 ≤ roundHalfEven c k := by
  unfold roundHalfEven
  simp only
  rw [if_neg (not_lt.mpr hc)]
  exact Int.natCast_nonneg _

/-- A number that is not negative stays so. -/
theorem rounded_nonneg {d : Decimal} (hd : 0 ≤ d.coeff) : 0 ≤ (rounded d).toRat := by
  have hcoeff : 0 ≤ (rounded d).coeff := by
    unfold rounded
    split
    · exact le_rfl
    · simp only
      split
      · unfold renormalised
        have := roundHalfEven_nonneg hd (max ((numDigits d.coeff : ℤ) + d.exp - prec) etiny - d.exp).toNat
        split
        · exact Int.ediv_nonneg this (by norm_num)
        · exact this
      · exact hd
  unfold toRat
  have : (0 : ℚ) ≤ (rounded d).coeff := by exact_mod_cast hcoeff
  positivity

/-- A power of ten that a number reaches, its rounding reaches. -/
theorem pow_le_rounded {d : Decimal} {j : ℕ} (h : (10 : ℚ) ^ j ≤ |d.toRat|) : (10 : ℚ) ^ j ≤ |(rounded d).toRat| := by
  have hz : d.coeff ≠ 0 := by
    intro hz
    rw [abs_toRat, hz, abs_zero, Int.cast_zero, zero_mul] at h
    exact absurd h (not_le.mpr (by positivity))
  have hj : (j : ℤ) < (numDigits d.coeff : ℤ) + d.exp := by
    have hlt := lt_of_le_of_lt h (abs_toRat_lt d)
    rw [← zpow_natCast] at hlt
    exact (zpow_lt_zpow_iff_right₀ (by norm_num)).mp hlt
  unfold rounded
  rw [if_neg hz]
  simp only
  split
  · rename_i hshort
    set e := max ((numDigits d.coeff : ℤ) + d.exp - prec) etiny with he
    have hprec : (prec : ℤ) = 28 := rfl
    have htiny : etiny < 0 := by decide
    have hpos := numDigits_pos d.coeff
    -- the leading digit is kept
    obtain ⟨m, hm⟩ : ∃ m : ℕ, (m : ℤ) = (numDigits d.coeff : ℤ) + d.exp - 1 - e :=
      ⟨((numDigits d.coeff : ℤ) + d.exp - 1 - e).toNat, by omega⟩
    have hlead : 10 ^ m ≤ |roundHalfEven d.coeff (e - d.exp).toNat| := by
      refine le_abs_roundHalfEven (le_trans (pow_le_pow_right₀ (by norm_num) ?_) (pow_numDigits_le_abs hz))
      omega
    rw [renormalised_toRat (abs_round_le d (le_max_left _ etiny) hshort), abs_mul,
      abs_of_pos (by positivity : (0 : ℚ) < (10 : ℚ) ^ e)]
    have hcast : ((10 : ℚ) ^ m) ≤ |((roundHalfEven d.coeff (e - d.exp).toNat : ℤ) : ℚ)| := by
      rw [← Int.cast_abs]
      exact_mod_cast hlead
    calc (10 : ℚ) ^ j = (10 : ℚ) ^ (j : ℤ) := (zpow_natCast _ _).symm
      _ ≤ (10 : ℚ) ^ ((m : ℤ) + e) := zpow_le_zpow_right₀ (by norm_num) (by omega)
      _ = (10 : ℚ) ^ m * (10 : ℚ) ^ e := by rw [zpow_add₀ ten_ne_zero, zpow_natCast]
      _ ≤ |((roundHalfEven d.coeff (e - d.exp).toNat : ℤ) : ℚ)| * (10 : ℚ) ^ e :=
        mul_le_mul_of_nonneg_right hcast (by positivity)
  · exact h

/-- A result that does not overflow is rounded to at most the largest number. -/
theorem abs_rounded_le {d : Decimal} (h : ¬d.Overflows) : |(rounded d).toRat| ≤ (10 ^ prec - 1) * (10 : ℚ) ^ etop := by
  obtain ⟨c, e, hc, -, hv⟩ := rounded_fits d
  have hsmall : |(rounded d).toRat| < (10 : ℚ) ^ ((prec : ℤ) + etop) := by
    by_cases hz : (rounded d).coeff = 0
    · rw [abs_toRat, hz, abs_zero, Int.cast_zero, zero_mul]
      positivity
    · refine lt_of_lt_of_le (abs_toRat_lt _) (zpow_le_zpow_right₀ (by norm_num) ?_)
      have hadj : (rounded d).adjusted ≤ emax := not_lt.mp fun hlt => h ⟨hz, hlt⟩
      have htop : etop = emax - prec + 1 := rfl
      unfold adjusted at hadj
      omega
  have habs : |(rounded d).toRat| = ((|c| : ℤ) : ℚ) * (10 : ℚ) ^ e := by
    rw [hv, abs_mul, abs_of_pos (by positivity : (0 : ℚ) < (10 : ℚ) ^ e), Int.cast_abs]
  rw [habs] at hsmall ⊢
  exact le_largest hc hsmall

end Decimal
