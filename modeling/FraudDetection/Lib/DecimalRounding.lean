import FraudDetection.Lib.Decimal

/-!
# What rounding to the context loses

Rounding with the exponent left unbounded (`rounded`), the results that overflow, and the ones that rounding leaves as they are: a
number fits the context when it can be written with 28 digits at an exponent the context has.
-/

namespace Decimal

/-- A rounded coefficient, renormalised when the rounding carried into a new digit. -/
def renormalised (c e : ℤ) : Decimal := if prec < numDigits c then ⟨c / 10, e + 1⟩ else ⟨c, e⟩

/-- An exact result, rounded to the digits of the context, however large it is. -/
def rounded (d : Decimal) : Decimal :=
  if d.coeff = 0 then
    ⟨0, min (max d.exp etiny) emax⟩
  else
    let expMin := max (numDigits d.coeff + d.exp - prec) etiny
    if d.exp < expMin then renormalised (roundHalfEven d.coeff (expMin - d.exp).toNat) expMin else d

/-- The exponent of the leading digit. -/
def adjusted (d : Decimal) : ℤ := d.exp + numDigits d.coeff - 1

/-- An exact result is too large for the context. -/
def Overflows (d : Decimal) : Prop := (rounded d).coeff ≠ 0 ∧ emax < (rounded d).adjusted

instance (d : Decimal) : Decidable d.Overflows := inferInstanceAs (Decidable (_ ∧ _))

/-- A number the context can hold, if it is not too large. -/
def Fits (d : Decimal) : Prop := ∃ c e : ℤ, |c| < 10 ^ prec ∧ etiny ≤ e ∧ d.toRat = c * (10 : ℚ) ^ e

/-! ## Digits -/

theorem numDigits_pos (c : ℤ) : 0 < numDigits c := Nat.length_toDigits_pos

/-- A coefficient has at most `k` digits when it is below `10 ^ k`. -/
theorem numDigits_le_iff {c : ℤ} {k : ℕ} (hk : 0 < k) : numDigits c ≤ k ↔ |c| < 10 ^ k := by
  unfold numDigits
  rw [Nat.length_toDigits_le_iff (by norm_num) hk, Int.abs_eq_natAbs]
  exact_mod_cast Iff.rfl

theorem abs_lt_pow_numDigits (c : ℤ) : |c| < 10 ^ numDigits c := (numDigits_le_iff (numDigits_pos c)).mp le_rfl

/-- A coefficient that is not zero has a leading digit. -/
theorem pow_numDigits_le_abs {c : ℤ} (hc : c ≠ 0) : 10 ^ (numDigits c - 1) ≤ |c| := by
  rcases Nat.eq_zero_or_pos (numDigits c - 1) with h | h
  · rw [h, pow_zero]
    exact Int.one_le_abs hc
  · by_contra hlt
    have := (numDigits_le_iff h).mpr (not_le.mp hlt)
    omega

/-- A coefficient written with `k` more zeros has `k` more digits. -/
theorem numDigits_mul_pow {c : ℤ} (hc : c ≠ 0) (k : ℕ) : numDigits (c * 10 ^ k) = numDigits c + k := by
  have hpos := numDigits_pos c
  have habs : |c * 10 ^ k| = |c| * 10 ^ k := by rw [abs_mul, abs_of_pos (by positivity : (0 : ℤ) < 10 ^ k)]
  have hk : (0 : ℤ) < 10 ^ k := by positivity
  refine le_antisymm ((numDigits_le_iff (by omega)).mpr ?_) ?_
  · rw [habs, pow_add]
    exact mul_lt_mul_of_pos_right (abs_lt_pow_numDigits c) hk
  · by_contra hlt
    have hdigits := numDigits_pos (c * 10 ^ k)
    have hle := (numDigits_le_iff (by omega : 0 < numDigits c - 1 + k)).mp (by omega : numDigits (c * 10 ^ k) ≤ _)
    rw [habs, pow_add] at hle
    exact absurd (pow_numDigits_le_abs hc) (not_le.mpr (lt_of_mul_lt_mul_right hle hk.le))

/-! ## Rounding to a whole number -/

/-- Rounding the magnitude up or down gives one of the two nearest whole numbers. -/
theorem natAbs_roundHalfEven (c : ℤ) (k : ℕ) :
    (roundHalfEven c k).natAbs = c.natAbs / 10 ^ k ∨ (roundHalfEven c k).natAbs = c.natAbs / 10 ^ k + 1 := by
  have hsign : ∀ q : ℕ, (if c < 0 then -(q : ℤ) else q).natAbs = q := by
    intro q
    split <;> omega
  unfold roundHalfEven
  simp only [hsign]
  split
  · exact Or.inr rfl
  · exact Or.inl rfl

/-- Zeros at the end are dropped first. -/
theorem roundHalfEven_mul_pow (c : ℤ) (j k : ℕ) : roundHalfEven (c * 10 ^ k) (j + k) = roundHalfEven c j := by
  have hk : 0 < 10 ^ k := by positivity
  have habs : (c * 10 ^ k).natAbs = c.natAbs * 10 ^ k := by
    rw [Int.natAbs_mul, Int.natAbs_pow]
    rfl
  have hneg : c * 10 ^ k < 0 ↔ c < 0 := by
    rw [mul_neg_iff]
    have : ¬(10 : ℤ) ^ k < 0 := not_lt.mpr (by positivity)
    have : (0 : ℤ) < 10 ^ k := by positivity
    tauto
  have hdiv : c.natAbs * 10 ^ k / 10 ^ (j + k) = c.natAbs / 10 ^ j := by
    rw [pow_add, Nat.mul_div_mul_right _ _ hk]
  have hmod : c.natAbs * 10 ^ k % 10 ^ (j + k) = c.natAbs % 10 ^ j * 10 ^ k := by
    rw [pow_add, Nat.mul_mod_mul_right]
  have hup : 10 ^ (j + k) < 2 * (c.natAbs % 10 ^ j * 10 ^ k) ↔ 10 ^ j < 2 * (c.natAbs % 10 ^ j) := by
    rw [pow_add, ← mul_assoc]
    exact Nat.mul_lt_mul_right hk
  have htie : 2 * (c.natAbs % 10 ^ j * 10 ^ k) = 10 ^ (j + k) ↔ 2 * (c.natAbs % 10 ^ j) = 10 ^ j := by
    rw [pow_add, ← mul_assoc]
    exact Nat.mul_left_inj hk.ne'
  unfold roundHalfEven
  simp only [habs, hdiv, hmod, hup, htie, hneg]

/-- A multiple of `10 ^ k` is not changed. -/
theorem roundHalfEven_mul (m : ℤ) (k : ℕ) : roundHalfEven (m * 10 ^ k) k = m := by
  have hzero : roundHalfEven m 0 = m := by
    unfold roundHalfEven
    simp only [pow_zero, Nat.mod_one, Nat.div_one]
    have hdown : ¬(1 < 2 * 0 ∨ 2 * 0 = 1 ∧ m.natAbs % 2 = 1) := by omega
    rw [if_neg hdown]
    split <;> omega
  have hdrop := roundHalfEven_mul_pow m 0 k
  rwa [zero_add, hzero] at hdrop

/-- Dropping `k` digits of at most `m + k` leaves at most `m`, or the next power of ten. -/
theorem abs_roundHalfEven_le {c : ℤ} {k m : ℕ} (h : |c| < 10 ^ (m + k)) : |roundHalfEven c k| ≤ 10 ^ m := by
  have hlt : c.natAbs / 10 ^ k < 10 ^ m := by
    refine Nat.div_lt_of_lt_mul ?_
    rw [Int.abs_eq_natAbs] at h
    rw [← pow_add, add_comm]
    exact_mod_cast h
  have hle : (roundHalfEven c k).natAbs ≤ 10 ^ m := by
    rcases natAbs_roundHalfEven c k with heq | heq <;> omega
  rw [Int.abs_eq_natAbs]
  exact_mod_cast hle

/-- Dropping `k` digits of more than `m + k` leaves more than `m`. -/
theorem le_abs_roundHalfEven {c : ℤ} {k m : ℕ} (h : 10 ^ (m + k) ≤ |c|) : 10 ^ m ≤ |roundHalfEven c k| := by
  have hle : 10 ^ m ≤ c.natAbs / 10 ^ k := by
    refine (Nat.le_div_iff_mul_le (by positivity)).mpr ?_
    rw [Int.abs_eq_natAbs] at h
    rw [← pow_add]
    exact_mod_cast h
  have hge : 10 ^ m ≤ (roundHalfEven c k).natAbs := by
    rcases natAbs_roundHalfEven c k with heq | heq <;> omega
  rw [Int.abs_eq_natAbs]
  exact_mod_cast hge

/-! ## Renormalising -/

/-- Only the next power of ten is renormalised, and its value is kept. -/
theorem renormalised_toRat {c e : ℤ} (h : |c| ≤ 10 ^ prec) : (renormalised c e).toRat = c * (10 : ℚ) ^ e := by
  unfold renormalised
  split
  · rename_i hlong
    have hge : ¬|c| < 10 ^ prec := fun hlt => by
      have := (numDigits_le_iff (by decide : 0 < prec)).mpr hlt
      omega
    have heq : |c| = 10 ^ prec := le_antisymm h (not_lt.mp hge)
    have hdvd : (10 : ℤ) ∣ c := (dvd_abs 10 c).mp (heq ▸ dvd_pow_self 10 (by decide))
    obtain ⟨q, rfl⟩ := hdvd
    have h10 : (10 : ℚ) ≠ 0 := by norm_num
    simp only [toRat, Int.mul_ediv_cancel_left q (by norm_num : (10 : ℤ) ≠ 0), zpow_add₀ h10, zpow_one, Int.cast_mul]
    push_cast
    ring
  · rfl

/-- A renormalised coefficient has the digits of the context. -/
theorem abs_renormalised_lt {c e : ℤ} (h : |c| ≤ 10 ^ prec) : |(renormalised c e).coeff| < 10 ^ prec := by
  unfold renormalised
  split
  · have hdiv : |c / 10| < 10 ^ prec := by
      have hb := abs_le.mp h
      have hp : (10 : ℤ) ^ prec = 10000000000000000000000000000 := by decide
      rw [hp] at hb ⊢
      rw [abs_lt]
      omega
    exact hdiv
  · rename_i hshort
    exact (numDigits_le_iff (by decide)).mp (not_lt.mp hshort)

/-! ## Rounding and the context -/

/-- The coefficient that rounding an exact result gives. -/
theorem abs_round_le (d : Decimal) {e : ℤ} (he : (numDigits d.coeff : ℤ) + d.exp - prec ≤ e) (hlt : d.exp < e) :
    |roundHalfEven d.coeff (e - d.exp).toNat| ≤ 10 ^ prec := by
  refine abs_roundHalfEven_le (lt_of_lt_of_le (abs_lt_pow_numDigits _) ?_)
  refine pow_le_pow_right₀ (by norm_num) ?_
  have : (((e - d.exp).toNat : ℕ) : ℤ) = e - d.exp := by omega
  omega

theorem carry_eq (c e : ℤ) :
    carry c e = if etop < (renormalised c e).exp then .error .overflow else .ok (renormalised c e) := rfl

/-- A coefficient of all the digits keeps them when it is renormalised. -/
theorem prec_le_numDigits_renormalised {c e : ℤ} (hl : 10 ^ (prec - 1) ≤ |c|) (hu : |c| ≤ 10 ^ prec) :
    (renormalised c e).coeff ≠ 0 ∧ prec ≤ numDigits (renormalised c e).coeff := by
  have hp : (10 : ℤ) ^ prec = 10000000000000000000000000000 := by decide
  have hp' : (10 : ℤ) ^ (prec - 1) = 1000000000000000000000000000 := by decide
  have hge : 10 ^ (prec - 1) ≤ |(renormalised c e).coeff| := by
    unfold renormalised
    split
    · rename_i hlong
      have hnot : ¬|c| < 10 ^ prec := fun hlt => by
        have := (numDigits_le_iff (by decide : 0 < prec)).mpr hlt
        omega
      have heq : |c| = 10 ^ prec := le_antisymm hu (not_lt.mp hnot)
      rw [hp] at heq
      rw [hp']
      simp only
      rcases abs_choice c with hc | hc <;> rw [hc] at heq
      · rw [heq]
        decide
      · rw [show c = -10000000000000000000000000000 by omega]
        decide
    · exact hl
  refine ⟨fun hz => ?_, ?_⟩
  · rw [hz, abs_zero, hp'] at hge
    omega
  · by_contra hlt
    have := (numDigits_le_iff (by decide : 0 < prec - 1)).mp (by omega : numDigits (renormalised c e).coeff ≤ prec - 1)
    omega

/-- A renormalised coefficient overflows when its exponent is above the largest. -/
theorem renormalised_overflows {c e : ℤ} (h : |c| ≤ 10 ^ prec) (he : e ≤ etop) :
    ((renormalised c e).coeff ≠ 0 ∧ emax < (renormalised c e).adjusted) ↔ etop < (renormalised c e).exp := by
  have htop : etop = emax - prec + 1 := rfl
  unfold adjusted
  constructor
  · rintro ⟨-, hadj⟩
    have hdigits := (numDigits_le_iff (by decide : 0 < prec)).mpr (abs_renormalised_lt (e := e) h)
    omega
  · intro hexp
    -- the exponent grew, so the coefficient reached the next power of ten
    have hlong : prec < numDigits c := by
      by_contra hshort
      rw [renormalised, if_neg hshort] at hexp
      exact absurd hexp (not_lt.mpr he)
    have hc : c ≠ 0 := by
      rintro rfl
      exact absurd hlong (by decide)
    have hl : 10 ^ (prec - 1) ≤ |c| := le_trans (pow_le_pow_right₀ (by norm_num) (by omega)) (pow_numDigits_le_abs hc)
    obtain ⟨hne, hdigits⟩ := prec_le_numDigits_renormalised (e := e) hl h
    exact ⟨hne, by omega⟩

/-- The context's rounding is the unbounded one, unless the result overflows. -/
theorem fix_eq (d : Decimal) : fix d = if d.Overflows then .error .overflow else .ok (rounded d) := by
  have hprec : prec = 28 := rfl
  have htop : etop = emax - prec + 1 := rfl
  have htiny : etiny ≤ etop := by decide
  unfold fix Overflows rounded
  by_cases hz : d.coeff = 0
  · simp [hz]
  · have hpos := numDigits_pos d.coeff
    simp only [hz, if_false]
    by_cases hlarge : etop < (numDigits d.coeff : ℤ) + d.exp - prec
    · have hmax : max ((numDigits d.coeff : ℤ) + d.exp - prec) etiny = (numDigits d.coeff : ℤ) + d.exp - prec :=
        max_eq_left (by omega)
      simp only [hlarge, if_true, hmax]
      by_cases hshort : d.exp < (numDigits d.coeff : ℤ) + d.exp - prec
      · -- the leading digits are kept, so the rounded result is as large
        have hl : 10 ^ (prec - 1) ≤
            |roundHalfEven d.coeff ((numDigits d.coeff : ℤ) + d.exp - prec - d.exp).toNat| := by
          refine le_abs_roundHalfEven (le_trans (pow_le_pow_right₀ (by norm_num) ?_) (pow_numDigits_le_abs hz))
          omega
        obtain ⟨hne, hdigits⟩ := prec_le_numDigits_renormalised
          (e := (numDigits d.coeff : ℤ) + d.exp - prec) hl (abs_round_le d le_rfl hshort)
        have hexp : ∀ c e : ℤ, e ≤ (renormalised c e).exp := by
          intro c e
          unfold renormalised
          split <;> simp
        have := hexp (roundHalfEven d.coeff ((numDigits d.coeff : ℤ) + d.exp - prec - d.exp).toNat)
          ((numDigits d.coeff : ℤ) + d.exp - prec)
        rw [if_pos hshort, if_pos ⟨hne, by unfold adjusted; omega⟩]
      · rw [if_neg hshort, if_pos ⟨hz, by unfold adjusted; omega⟩]
    · simp only [hlarge, if_false]
      by_cases hshort : d.exp < max ((numDigits d.coeff : ℤ) + d.exp - prec) etiny
      · have hround := abs_round_le d (le_max_left _ etiny) hshort
        simp only [hshort, if_true, carry_eq]
        have he : max ((numDigits d.coeff : ℤ) + d.exp - prec) etiny ≤ etop := max_le (not_lt.mp hlarge) htiny
        simp only [renormalised_overflows hround he]
      · simp only [hshort, if_false]
        have hsmall : ¬(d.coeff ≠ 0 ∧ emax < d.adjusted) := by
          rintro ⟨-, hadj⟩
          unfold adjusted at hadj
          omega
        rw [if_neg hsmall]

/-- Rounding gives a number the context can hold. -/
theorem rounded_fits (d : Decimal) : (rounded d).Fits := by
  unfold Fits rounded
  by_cases hz : d.coeff = 0
  · exact ⟨0, etiny, by decide, le_rfl, by simp [hz, toRat]⟩
  · simp only [hz, if_false]
    split
    · rename_i hshort
      have hround := abs_round_le d (le_max_left _ etiny) hshort
      refine ⟨_, _, abs_renormalised_lt hround, ?_, rfl⟩
      have := le_max_right ((numDigits d.coeff : ℤ) + d.exp - prec) etiny
      unfold renormalised
      split <;> simp only <;> omega
    · rename_i hlong
      have := max_le_iff.mp (not_lt.mp hlong)
      exact ⟨d.coeff, d.exp, (numDigits_le_iff (by decide)).mp (by omega), this.2, rfl⟩

/-- A number that fits has zeros where rounding drops digits. -/
theorem dvd_of_fits {d : Decimal} (h : d.Fits) (hz : d.coeff ≠ 0)
    (hshort : d.exp < max ((numDigits d.coeff : ℤ) + d.exp - prec) etiny) :
    (10 : ℤ) ^ (max ((numDigits d.coeff : ℤ) + d.exp - prec) etiny - d.exp).toNat ∣ d.coeff := by
  set E := max ((numDigits d.coeff : ℤ) + d.exp - prec) etiny with hE
  obtain ⟨c, e, hc, he, hval⟩ := h
  have h10 : (10 : ℚ) ≠ 0 := by norm_num
  have hle : E ≤ e := by
    -- a smaller exponent would need more than the digits of the context
    by_contra hlt
    have hEe : E = (numDigits d.coeff : ℤ) + d.exp - prec := by omega
    have hlead := pow_numDigits_le_abs hz
    have hlt' : |d.toRat| < (10 : ℚ) ^ ((numDigits d.coeff : ℤ) + d.exp - 1) := by
      rw [hval, abs_mul, abs_of_pos (by positivity : (0 : ℚ) < (10 : ℚ) ^ e)]
      have hc' : |(c : ℚ)| < (10 : ℚ) ^ (prec : ℤ) := by
        rw [zpow_natCast]
        exact_mod_cast hc
      calc |(c : ℚ)| * (10 : ℚ) ^ e < (10 : ℚ) ^ (prec : ℤ) * (10 : ℚ) ^ e := by gcongr
        _ = (10 : ℚ) ^ ((prec : ℤ) + e) := (zpow_add₀ h10 _ _).symm
        _ ≤ (10 : ℚ) ^ ((numDigits d.coeff : ℤ) + d.exp - 1) := zpow_le_zpow_right₀ (by norm_num) (by omega)
    have hge : (10 : ℚ) ^ ((numDigits d.coeff : ℤ) + d.exp - 1) ≤ |d.toRat| := by
      have hpos := numDigits_pos d.coeff
      have hlead' : (10 : ℚ) ^ ((numDigits d.coeff : ℤ) - 1) ≤ |(d.coeff : ℚ)| := by
        rw [show (numDigits d.coeff : ℤ) - 1 = ((numDigits d.coeff - 1 : ℕ) : ℤ) by omega, zpow_natCast]
        exact_mod_cast hlead
      unfold toRat
      rw [abs_mul, abs_of_pos (by positivity : (0 : ℚ) < (10 : ℚ) ^ d.exp),
        show (numDigits d.coeff : ℤ) + d.exp - 1 = (numDigits d.coeff : ℤ) - 1 + d.exp by ring, zpow_add₀ h10]
      gcongr
    exact absurd hge (not_le.mpr hlt')
  have hcoeff : d.coeff = c * 10 ^ (e - d.exp).toNat := by
    have hk : (((e - d.exp).toNat : ℕ) : ℤ) = e - d.exp := by omega
    have hq : (d.coeff : ℚ) = c * (10 : ℚ) ^ (e - d.exp).toNat := by
      refine mul_right_cancel₀ (zpow_ne_zero d.exp h10) ?_
      rw [mul_assoc, ← zpow_natCast, hk, ← zpow_add₀ h10, sub_add_cancel, ← hval]
      rfl
    exact_mod_cast hq
  rw [hcoeff]
  exact dvd_mul_of_dvd_right (pow_dvd_pow 10 (by omega)) c

/-- Whether a number fits depends on its value alone. -/
theorem fits_congr {a b : Decimal} (h : a.toRat = b.toRat) : a.Fits ↔ b.Fits := by
  unfold Fits
  rw [h]

/-- Rounding keeps a value exactly when the number fits. -/
theorem rounded_toRat_iff (d : Decimal) : (rounded d).toRat = d.toRat ↔ d.Fits := by
  constructor
  · intro h
    exact (fits_congr h).mp (rounded_fits d)
  · intro h
    unfold rounded
    by_cases hz : d.coeff = 0
    · simp [hz, toRat]
    · simp only [hz, if_false]
      split
      · rename_i hshort
        obtain ⟨m, hm⟩ := dvd_of_fits h hz hshort
        have hround := abs_round_le d (le_max_left _ etiny) hshort
        rw [renormalised_toRat hround]
        have h10 : (10 : ℚ) ≠ 0 := by norm_num
        set E := max ((numDigits d.coeff : ℤ) + d.exp - prec) etiny
        have hk : (((E - d.exp).toNat : ℕ) : ℤ) = E - d.exp := by omega
        have hr : roundHalfEven d.coeff (E - d.exp).toNat = m := by
          rw [hm, mul_comm, roundHalfEven_mul]
        rw [hr, toRat, hm]
        push_cast
        rw [mul_comm ((10 : ℚ) ^ _) (m : ℚ), mul_assoc, ← zpow_natCast, hk, ← zpow_add₀ h10, sub_add_cancel]
      · rfl

/-! ## Rounding depends on the value alone -/

/-- A number written with more decimal places. -/
def extend (d : Decimal) (k : ℕ) : Decimal := ⟨d.coeff * 10 ^ k, d.exp - k⟩

theorem extend_toRat (d : Decimal) (k : ℕ) : (d.extend k).toRat = d.toRat := by
  have h10 : (10 : ℚ) ≠ 0 := by norm_num
  unfold extend toRat
  push_cast
  rw [mul_assoc, ← zpow_natCast, ← zpow_add₀ h10, add_sub_cancel]

/-- Of two ways to write a value, the one with the smaller exponent has more decimal places. -/
theorem eq_extend {a b : Decimal} (h : a.toRat = b.toRat) (hle : a.exp ≤ b.exp) : a = b.extend (b.exp - a.exp).toNat := by
  have h10 : (10 : ℚ) ≠ 0 := by norm_num
  have hk : (((b.exp - a.exp).toNat : ℕ) : ℤ) = b.exp - a.exp := by omega
  have hexp : (b.extend (b.exp - a.exp).toNat).exp = a.exp := by
    simp only [extend, hk]
    ring
  have hcoeff : (a.coeff : ℚ) = (b.extend (b.exp - a.exp).toNat).coeff := by
    refine mul_right_cancel₀ (zpow_ne_zero a.exp h10) ?_
    rw [← extend_toRat b (b.exp - a.exp).toNat] at h
    unfold toRat at h
    rwa [hexp] at h
  have hcoeff' : a.coeff = (b.extend (b.exp - a.exp).toNat).coeff := by exact_mod_cast hcoeff
  exact congrArg₂ Decimal.mk hcoeff' hexp.symm

/-- Rounding gives equal values to equal values. -/
theorem rounded_extend (d : Decimal) (k : ℕ) : (rounded (d.extend k)).toRat = (rounded d).toRat := by
  by_cases hf : d.Fits
  · rw [(rounded_toRat_iff d).mpr hf, (rounded_toRat_iff _).mpr ((fits_congr (extend_toRat d k)).mpr hf), extend_toRat]
  · have hz : d.coeff ≠ 0 := by
      intro hz
      exact hf ((rounded_toRat_iff d).mp (by simp [rounded, hz, toRat]))
    have hz' : (d.extend k).coeff ≠ 0 := by
      unfold extend
      positivity
    have hmin : (numDigits (d.extend k).coeff : ℤ) + (d.extend k).exp - prec = numDigits d.coeff + d.exp - prec := by
      unfold extend
      rw [numDigits_mul_pow hz]
      push_cast
      ring
    have hexp : (d.extend k).exp = d.exp - k := rfl
    have hshort : d.exp < max ((numDigits d.coeff : ℤ) + d.exp - prec) etiny := by
      by_contra hlong
      refine hf ((rounded_toRat_iff d).mp ?_)
      unfold rounded
      simp only [hz, if_false, if_neg hlong]
    -- both are rounded, and the zeros go first
    have hj : (max ((numDigits d.coeff : ℤ) + d.exp - prec) etiny - (d.extend k).exp).toNat =
        (max ((numDigits d.coeff : ℤ) + d.exp - prec) etiny - d.exp).toNat + k := by omega
    unfold rounded
    simp only [hz, hz', if_false, hmin]
    rw [if_pos hshort, if_pos (by omega), hj, show (d.extend k).coeff = d.coeff * 10 ^ k from rfl, roundHalfEven_mul_pow]

theorem adjusted_extend {d : Decimal} (hd : d.coeff ≠ 0) (k : ℕ) : (d.extend k).adjusted = d.adjusted := by
  unfold adjusted extend
  rw [numDigits_mul_pow hd]
  push_cast
  ring

/-- What holds of every way to write a value is shown on one and the ways to extend it. -/
theorem congr_of_extend {α : Type} (f : Decimal → α) (hf : ∀ d k, f (d.extend k) = f d) {a b : Decimal}
    (h : a.toRat = b.toRat) : f a = f b := by
  rcases le_total a.exp b.exp with hle | hle
  · rw [eq_extend h hle, hf]
  · rw [eq_extend h.symm hle, hf]

/-- Rounding gives equal values to equal values. -/
theorem rounded_congr {a b : Decimal} (h : a.toRat = b.toRat) : (rounded a).toRat = (rounded b).toRat :=
  congr_of_extend (fun d => (rounded d).toRat) rounded_extend h

/-- Whether an exact result overflows depends on its value alone. -/
theorem overflows_congr {a b : Decimal} (h : a.toRat = b.toRat) : a.Overflows ↔ b.Overflows := by
  have hlarge : ∀ (d : Decimal) (k : ℕ), ((d.extend k).coeff ≠ 0 ∧ emax < (d.extend k).adjusted) =
      (d.coeff ≠ 0 ∧ emax < d.adjusted) := by
    intro d k
    by_cases hd : d.coeff = 0
    · simp [extend, hd]
    · have hd' : (d.extend k).coeff ≠ 0 := by
        unfold extend
        positivity
      simp only [ne_eq, hd, hd', adjusted_extend hd]
  exact iff_of_eq (congr_of_extend (fun d => d.coeff ≠ 0 ∧ emax < d.adjusted) hlarge (rounded_congr h))

/-! ## Powers of ten -/

theorem numDigits_pow (k : ℕ) : numDigits (10 ^ k) = k + 1 := by
  have habs : |(10 : ℤ) ^ k| = 10 ^ k := abs_of_nonneg (by positivity)
  refine le_antisymm ((numDigits_le_iff (by omega)).mpr ?_) ?_
  · rw [habs]
    exact pow_lt_pow_right₀ (by norm_num) (by omega)
  · by_contra hlt
    rcases Nat.eq_zero_or_pos k with rfl | hk
    · have := numDigits_pos (10 ^ 0)
      omega
    · have := (numDigits_le_iff hk).mp (by omega : numDigits (10 ^ k) ≤ k)
      rw [habs] at this
      exact lt_irrefl _ this

/-- A power of ten of more than 28 digits keeps its leading digit and 27 zeros. -/
theorem fix_pow {k : ℕ} (hk : 0 < k) {e : ℤ} (he : 0 ≤ e) :
    fix ⟨10 ^ (27 + k), e⟩ = if etop < k + e then .error .overflow else .ok ⟨10 ^ 27, k + e⟩ := by
  have hne : (10 : ℤ) ^ (27 + k) ≠ 0 := by positivity
  have hmin : ((27 + k + 1 : ℕ) : ℤ) + e - prec = k + e := by
    have : prec = 28 := rfl
    omega
  have htiny : etiny ≤ k + e := le_trans (by decide : etiny ≤ 0) (by omega)
  have hround : roundHalfEven (10 ^ (27 + k)) k = 10 ^ 27 := by rw [pow_add, roundHalfEven_mul]
  have hk' : (k + e - e).toNat = k := by omega
  unfold fix
  simp only [hne, if_false, numDigits_pow, hmin]
  split
  · rfl
  · rename_i hle
    rw [max_eq_left htiny, if_pos (by omega), hk', hround]
    unfold carry
    have hdigits : ¬prec < numDigits (10 ^ 27) := by
      rw [numDigits_pow]
      decide
    simp only [hdigits, if_false, if_neg hle]

/-! ## The exact operations, by value -/

theorem addExact_toRat (a b : Decimal) : (addExact a b).toRat = a.toRat + b.toRat := by
  rw [← coeffAt_mul_zpow a (min_le_left a.exp b.exp), ← coeffAt_mul_zpow b (min_le_right a.exp b.exp)]
  simp only [addExact, toRat, Int.cast_add]
  ring

theorem mulExact_toRat (a b : Decimal) : (mulExact a b).toRat = a.toRat * b.toRat := by
  have h10 : (10 : ℚ) ≠ 0 := by norm_num
  simp only [mulExact, toRat, Int.cast_mul, zpow_add₀ h10]
  ring

theorem negExact_toRat (a : Decimal) : (negExact a).toRat = -a.toRat := by
  simp only [negExact, toRat, Int.cast_neg]
  ring

end Decimal
