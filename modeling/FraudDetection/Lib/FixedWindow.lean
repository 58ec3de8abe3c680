import Mathlib.Data.List.Count
import Mathlib.Data.List.Induction
import Mathlib.Data.Rat.Floor
import Mathlib.Tactic.Linarith

/-!
# Fixed-window limits

Time is cut into windows of one width. A call is allowed when fewer calls than the limit came before it in its window, allowed or
not. So a window has at most the limit of allowed calls, and any interval of the same width, which meets two windows at most, at
most twice that.
-/

namespace FixedWindow

variable {limit width : ℕ}

/-! ## Windows -/

/-- The window of a time. -/
def window (width : ℕ) (t : ℚ) : ℤ := ⌊t / width⌋

theorem start_le (hw : 1 ≤ width) (t : ℚ) : (window width t : ℚ) * width ≤ t := by
  have hpos : (0 : ℚ) < width := by exact_mod_cast hw
  exact (le_div_iff₀ hpos).mp (Int.floor_le (t / width))

theorem lt_end (hw : 1 ≤ width) (t : ℚ) : t < ((window width t : ℚ) + 1) * width := by
  have hpos : (0 : ℚ) < width := by exact_mod_cast hw
  exact (div_lt_iff₀ hpos).mp (Int.lt_floor_add_one (t / width))

theorem window_mono (width : ℕ) {t u : ℚ} (h : t ≤ u) : window width t ≤ window width u :=
  Int.floor_le_floor (div_le_div_of_nonneg_right h (Nat.cast_nonneg width))

/-- From the end of a window on, it is a later one. -/
theorem lt_window (hw : 1 ≤ width) {k : ℤ} {t : ℚ} (h : ((k : ℚ) + 1) * width ≤ t) : k < window width t := by
  have hpos : (0 : ℚ) < width := by exact_mod_cast hw
  refine Int.lt_iff_add_one_le.mpr (Int.le_floor.mpr ?_)
  push_cast
  exact (le_div_iff₀ hpos).mpr h

/-- An interval of the width of a window meets two windows at most. -/
theorem window_of_interval (hw : 1 ≤ width) {a t : ℚ} (ha : a ≤ t) (hb : t < a + width) :
    window width t = window width a ∨ window width t = window width a + 1 := by
  have hpos : (0 : ℚ) < width := by exact_mod_cast hw
  have hlow := window_mono width ha
  have hhigh : window width t < window width a + 2 := by
    refine Int.floor_lt.mpr ((div_lt_iff₀ hpos).mpr ?_)
    have hend := lt_end hw a
    push_cast
    linarith
  omega

/-! ## Waiting -/

/-- The whole seconds a caller is told to wait for the next window. -/
def wait (width : ℕ) (t : ℚ) : ℤ := max 1 ⌈((window width t : ℚ) + 1) * width - t⌉

theorem one_le_wait (width : ℕ) (t : ℚ) : 1 ≤ wait width t := le_max_left _ _

theorem wait_le (hw : 1 ≤ width) (t : ℚ) : wait width t ≤ width := by
  refine max_le (by exact_mod_cast hw) (Int.ceil_le.mpr ?_)
  have hstart := start_le hw t
  push_cast
  linarith

/-- Who waits that long is in a later window. -/
theorem window_lt_of_wait (hw : 1 ≤ width) {t u : ℚ} (h : t + wait width t ≤ u) : window width t < window width u := by
  refine lt_window hw ?_
  have hceil : ((window width t : ℚ) + 1) * width - t ≤ (wait width t : ℚ) := by
    refine (Int.le_ceil _).trans (Int.cast_le.mpr ?_)
    exact le_max_right _ _
  linarith

/-! ## The limit -/

/-- How many of some times fall in a window. -/
def inWindow (width : ℕ) (times : List ℚ) (k : ℤ) : ℕ := times.countP fun t => decide (window width t = k)

theorem inWindow_append (width : ℕ) (times times' : List ℚ) (k : ℤ) :
    inWindow width (times ++ times') k = inWindow width times k + inWindow width times' k := List.countP_append

/-- A call at a time, and whether it is allowed after the calls before it. -/
def judgeOne (limit width : ℕ) (earlier : List ℚ) (t : ℚ) : ℚ × Bool :=
  (t, decide (inWindow width earlier (window width t) < limit))

/-- Which calls are allowed, after some earlier ones. -/
def judge (limit width : ℕ) : List ℚ → List ℚ → List (ℚ × Bool)
  | _, [] => []
  | earlier, t :: times => judgeOne limit width earlier t :: judge limit width (earlier ++ [t]) times

theorem judge_append (limit width : ℕ) (earlier times times' : List ℚ) :
    judge limit width earlier (times ++ times') = judge limit width earlier times ++ judge limit width (earlier ++ times) times' := by
  induction times generalizing earlier with
  | nil => simp [judge]
  | cons t times ih => simp [judge, ih]

/-- The times of the calls that are allowed. -/
def allowed (limit width : ℕ) (times : List ℚ) : List ℚ := ((judge limit width [] times).filter (·.2)).map (·.1)

theorem allowed_snoc (limit width : ℕ) (times : List ℚ) (t : ℚ) :
    allowed limit width (times ++ [t]) =
      allowed limit width times ++ if inWindow width times (window width t) < limit then [t] else [] := by
  unfold allowed
  rw [judge_append, List.nil_append, List.filter_append, List.map_append]
  by_cases hlt : inWindow width times (window width t) < limit
  · simp [judge, judgeOne, hlt]
  · simp [judge, judgeOne, hlt]

/-- No more calls are allowed in a window than are made in it. -/
theorem allowed_le (limit width : ℕ) (times : List ℚ) (k : ℤ) :
    inWindow width (allowed limit width times) k ≤ inWindow width times k := by
  induction times using List.reverseRecOn with
  | nil => exact le_rfl
  | append_singleton times t ih =>
    rw [allowed_snoc, inWindow_append, inWindow_append]
    split_ifs
    · exact Nat.add_le_add_right ih _
    · exact Nat.add_le_add ih (Nat.zero_le _)

/-- A window has at most the limit of allowed calls. -/
theorem allowed_inWindow_le (limit width : ℕ) (times : List ℚ) (k : ℤ) : inWindow width (allowed limit width times) k ≤ limit := by
  induction times using List.reverseRecOn with
  | nil => exact Nat.zero_le _
  | append_singleton times t ih =>
    rw [allowed_snoc, inWindow_append]
    split_ifs with hlt
    · by_cases hk : window width t = k
      · rw [hk] at hlt
        have hle := allowed_le limit width times k
        have hone : inWindow width [t] k ≤ 1 := List.countP_le_length
        omega
      · have hzero : inWindow width [t] k = 0 := by simp [inWindow, hk]
        omega
    · exact ih

/-- What falls in an interval of the width of a window falls in one of two windows. -/
theorem interval_le (hw : 1 ≤ width) (times : List ℚ) (a : ℚ) :
    times.countP (fun t => decide (a ≤ t ∧ t < a + width)) ≤
      inWindow width times (window width a) + inWindow width times (window width a + 1) := by
  induction times with
  | nil => exact le_rfl
  | cons t times ih =>
    unfold inWindow at *
    simp only [List.countP_cons]
    by_cases hin : a ≤ t ∧ t < a + width
    · rcases window_of_interval hw hin.1 hin.2 with hk | hk
      · rw [if_pos (decide_eq_true hin), if_pos (decide_eq_true hk)]
        omega
      · rw [if_pos (decide_eq_true hin), if_pos (decide_eq_true hk)]
        omega
    · rw [if_neg (by simpa using hin)]
      omega

/-- An interval of the width of a window has at most twice the limit of allowed calls. -/
theorem allowed_interval_le (hw : 1 ≤ width) (limit : ℕ) (times : List ℚ) (a : ℚ) :
    (allowed limit width times).countP (fun t => decide (a ≤ t ∧ t < a + width)) ≤ 2 * limit := by
  have hfirst := allowed_inWindow_le limit width times (window width a)
  have hsecond := allowed_inWindow_le limit width times (window width a + 1)
  have hsplit := interval_le hw (allowed limit width times) a
  omega

@[simp] theorem length_judge (limit width : ℕ) (earlier times : List ℚ) :
    (judge limit width earlier times).length = times.length := by
  induction times generalizing earlier with
  | nil => rfl
  | cons t times ih => simp [judge, ih]

/-- A call that is not allowed has the limit of calls before it in its window. -/
theorem limit_le_of_not_allowed {before after : List ℚ} {t : ℚ} {judged rest : List (ℚ × Bool)}
    (h : judge limit width [] (before ++ t :: after) = judged ++ (t, false) :: rest) (hl : judged.length = before.length) :
    limit ≤ inWindow width before (window width t) := by
  rw [judge_append, List.nil_append] at h
  have hrest := (List.append_inj h (by rw [length_judge, hl])).2
  have hhead : judgeOne limit width before t = (t, false) := (List.cons.inj hrest).1
  have hflag : decide (inWindow width before (window width t) < limit) = false := congrArg Prod.snd hhead
  exact not_lt.mp (of_decide_eq_false hflag)

end FixedWindow
