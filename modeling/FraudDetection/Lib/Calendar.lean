import Mathlib.Data.Nat.Notation
import Mathlib.Tactic.IntervalCases

/-!
# The Gregorian calendar

Days numbered from the first of January of year 1, which is day 1, and their dates, as Python's `datetime` converts between them.
-/

namespace Calendar

/-- A date. -/
structure Date where
  year : ℕ
  month : ℕ
  day : ℕ
  deriving DecidableEq, Repr

def isLeap (year : ℕ) : Bool := decide (year % 4 = 0 ∧ (year % 100 ≠ 0 ∨ year % 400 = 0))

/-- The days of the years before a year. -/
def daysBeforeYear (year : ℕ) : ℕ := (year - 1) * 365 + (year - 1) / 4 - (year - 1) / 100 + (year - 1) / 400

/-- The days of a month of a common year, and of the months before it. -/
def commonDays (month : ℕ) : ℕ := [0, 31, 28, 31, 30, 31, 30, 31, 31, 30, 31, 30, 31].getD month 0
def commonDaysBefore (month : ℕ) : ℕ := [0, 0, 31, 59, 90, 120, 151, 181, 212, 243, 273, 304, 334].getD month 0

def daysInMonth (leap : Bool) (month : ℕ) : ℕ := if month = 2 ∧ leap then 29 else commonDays month

def daysBeforeMonth (leap : Bool) (month : ℕ) : ℕ := commonDaysBefore month + if 2 < month ∧ leap then 1 else 0

/-- What `date` takes. -/
def Date.IsValid (d : Date) : Prop :=
  1 ≤ d.year ∧ d.year ≤ 9999 ∧ 1 ≤ d.month ∧ d.month ≤ 12 ∧ 1 ≤ d.day ∧ d.day ≤ daysInMonth (isLeap d.year) d.month

instance (d : Date) : Decidable d.IsValid := inferInstanceAs (Decidable (_ ∧ _))

/-- The number of a date. -/
def toOrdinal (d : Date) : ℕ := daysBeforeYear d.year + daysBeforeMonth (isLeap d.year) d.month + d.day

/-- The month and day of a day of a year, counted from 0: an estimate of the month, which may be one too large. -/
def monthAndDay (leap : Bool) (n : ℕ) : ℕ × ℕ :=
  let month := (n + 50) / 32
  if n < daysBeforeMonth leap month then (month - 1, n - daysBeforeMonth leap (month - 1) + 1)
  else (month, n - daysBeforeMonth leap month + 1)

/-- The date of a number. The last day of four years, and of four centuries, would begin a fifth. -/
def ofOrdinal (ordinal : ℕ) : Date :=
  let n := ordinal - 1
  let n400 := n / 146097
  let n100 := n % 146097 / 36524
  let n4 := n % 146097 % 36524 / 1461
  let n1 := n % 146097 % 36524 % 1461 / 365
  let year := n400 * 400 + 1 + n100 * 100 + n4 * 4 + n1
  if n1 = 4 ∨ n100 = 4 then ⟨year - 1, 12, 31⟩
  else
    let md := monthAndDay (decide (n1 = 3 ∧ (n4 ≠ 24 ∨ n100 = 3))) (n % 146097 % 36524 % 1461 % 365)
    ⟨year, md.1, md.2⟩

/-- The number of the last date there is. -/
def maxOrdinal : ℕ := 3652059

theorem daysInMonth_le (leap : Bool) (month : ℕ) : daysInMonth leap month ≤ 31 := by
  have hcommon : commonDays month ≤ 31 := by
    unfold commonDays
    rcases Nat.lt_or_ge month 13 with h | h
    · revert month
      decide
    · rw [List.getD_eq_getElem?_getD, List.getElem?_eq_none h]
      exact Nat.zero_le _
  unfold daysInMonth
  split
  · omega
  · exact hcommon

/-- A day of a year is in a month. -/
theorem monthAndDay_spec : ∀ leap, ∀ n < 365 + leap.toNat, 1 ≤ (monthAndDay leap n).1 ∧ (monthAndDay leap n).1 ≤ 12 ∧
    1 ≤ (monthAndDay leap n).2 ∧ (monthAndDay leap n).2 ≤ daysInMonth leap (monthAndDay leap n).1 ∧
    daysBeforeMonth leap (monthAndDay leap n).1 + (monthAndDay leap n).2 = n + 1 := by
  decide +kernel

/-- A year in its cycle of four centuries. -/
theorem year_cycle (n400 n100 n4 n1 : ℕ) (h100 : n100 ≤ 3) (h4 : n4 ≤ 24) (h1 : n1 ≤ 3) :
    daysBeforeYear (n400 * 400 + 1 + n100 * 100 + n4 * 4 + n1) = n400 * 146097 + n100 * 36524 + n4 * 1461 + n1 * 365 ∧
      isLeap (n400 * 400 + 1 + n100 * 100 + n4 * 4 + n1) = decide (n1 = 3 ∧ (n4 ≠ 24 ∨ n100 = 3)) := by
  constructor
  · unfold daysBeforeYear
    omega
  · unfold isLeap
    rw [decide_eq_decide]
    omega

/-- The last day of the fourth year of a cycle is in a leap year. -/
theorem lastDay_spec {year n : ℕ} (h1 : 1 ≤ year) (h2 : year ≤ 9999) (hleap : isLeap year = true)
    (hn : daysBeforeYear year + 366 = n) : (Date.mk year 12 31).IsValid ∧ toOrdinal ⟨year, 12, 31⟩ = n := by
  constructor
  · refine ⟨h1, h2, ?_⟩
    simp only [hleap]
    decide
  · unfold toOrdinal
    rw [hleap]
    have hbefore : daysBeforeMonth true 12 = 335 := rfl
    rw [hbefore]
    omega

/-- A number in range has a valid date, whose number it is. -/
theorem ofOrdinal_spec {ordinal : ℕ} (h1 : 1 ≤ ordinal) (h2 : ordinal ≤ maxOrdinal) :
    (ofOrdinal ordinal).IsValid ∧ toOrdinal (ofOrdinal ordinal) = ordinal := by
  unfold maxOrdinal at h2
  unfold ofOrdinal
  simp only
  -- the number as cycles of four centuries, centuries, cycles of four years, years and days
  have e400 := Nat.div_add_mod (ordinal - 1) 146097
  have l400 := Nat.mod_lt (ordinal - 1) (show 0 < 146097 by omega)
  generalize (ordinal - 1) / 146097 = n400 at *
  generalize (ordinal - 1) % 146097 = r400 at *
  have e100 := Nat.div_add_mod r400 36524
  have l100 := Nat.mod_lt r400 (show 0 < 36524 by omega)
  generalize r400 / 36524 = n100 at *
  generalize r400 % 36524 = r100 at *
  have e4 := Nat.div_add_mod r100 1461
  have l4 := Nat.mod_lt r100 (show 0 < 1461 by omega)
  generalize r100 / 1461 = n4 at *
  generalize r100 % 1461 = r4 at *
  have e1 := Nat.div_add_mod r4 365
  have l1 := Nat.mod_lt r4 (show 0 < 365 by omega)
  generalize r4 / 365 = n1 at *
  generalize r4 % 365 = r1 at *
  split
  · rename_i hlast
    -- either the fourth year of a cycle, or the last century, is one day longer
    have hcases : (n1 = 4 ∧ n100 ≤ 3 ∧ n4 ≤ 23 ∧ r1 = 0) ∨ (n100 = 4 ∧ n4 = 0 ∧ n1 = 0 ∧ r1 = 0) := by omega
    rcases hcases with ⟨rfl, h100, h4, rfl⟩ | ⟨rfl, rfl, rfl, rfl⟩
    · have hyear : n400 * 400 + 1 + n100 * 100 + n4 * 4 + 4 - 1 = n400 * 400 + 1 + n100 * 100 + n4 * 4 + 3 := by omega
      obtain ⟨hbefore, hleap⟩ := year_cycle n400 n100 n4 3 h100 (by omega) (by omega)
      rw [hyear]
      refine lastDay_spec (by omega) (by omega) ?_ (by omega)
      rw [hleap]
      exact decide_eq_true ⟨rfl, .inl (by omega)⟩
    · have hyear : n400 * 400 + 1 + 4 * 100 + 0 * 4 + 0 - 1 = n400 * 400 + 1 + 3 * 100 + 24 * 4 + 3 := by omega
      obtain ⟨hbefore, hleap⟩ := year_cycle n400 3 24 3 (by omega) (by omega) (by omega)
      rw [hyear]
      refine lastDay_spec (by omega) (by omega) ?_ (by omega)
      rw [hleap]
      exact decide_eq_true ⟨rfl, .inr rfl⟩
  · rename_i hlast
    obtain ⟨hbefore, hleap⟩ := year_cycle n400 n100 n4 n1 (by omega) (by omega) (by omega)
    obtain ⟨m1, m2, d1, d2, hsum⟩ := monthAndDay_spec (decide (n1 = 3 ∧ (n4 ≠ 24 ∨ n100 = 3))) r1 (by omega)
    refine ⟨⟨by simp only; omega, by simp only; omega, m1, m2, d1, ?_⟩, ?_⟩
    · simp only [hleap]
      exact d2
    · unfold toOrdinal
      simp only [hleap, hbefore]
      omega

end Calendar
