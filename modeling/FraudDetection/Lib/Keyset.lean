import Mathlib.Data.List.Sort

/-!
# Keyset pages

Rows of distinct keys, listed a page at a time from the largest key down. The next page is of the rows below the last key of the
one before it, so rows may be inserted between pages: what a walk has passed stays passed.
-/

namespace Keyset

variable {ρ κ : Type _} [LinearOrder κ] {key : ρ → κ} {wanted : ρ → Bool} {before rows rows' seen : List ρ}

/-- How far a walk has come. -/
inductive Boundary (κ : Type _) where
  | start
  | after (key : κ)
  | finished

/-- A key has had its turn. -/
def Boundary.Passed : Boundary κ → κ → Prop
  | .start, _ => False
  | .after last, k => last ≤ k
  | .finished, _ => True

instance (b : Boundary κ) : DecidablePred b.Passed := fun k =>
  match b with
  | .start => .isFalse not_false
  | .after last => inferInstanceAs (Decidable (last ≤ k))
  | .finished => .isTrue trivial

/-- Where a walk is after a page, given its last row when there are more. -/
def Boundary.ofLast (key : ρ → κ) : Option ρ → Boundary κ
  | none => .finished
  | some last => .after (key last)

/-- The rows still to come, from the largest key down. -/
def remaining (key : ρ → κ) (wanted : ρ → Bool) (b : Boundary κ) (rows : List ρ) : List ρ :=
  (rows.filter fun r => wanted r && !decide (b.Passed (key r))).mergeSort fun x y => decide (key y ≤ key x)

/-- The first rows, and the last of them when there are more. -/
def page (limit : ℕ) (rows : List ρ) : List ρ × Option ρ :=
  let found := rows.take (limit + 1)
  if limit < found.length then (found.take limit, (found.take limit).getLast?) else (found, none)

/-- A key that has had its turn is above one that has not. -/
theorem Boundary.lt_of_passed {b : Boundary κ} {k k' : κ} (h : b.Passed k) (h' : ¬b.Passed k') : k' < k := by
  cases b with
  | start => cases h
  | after last => exact lt_of_lt_of_le (not_le.mp h') h
  | finished => exact absurd trivial h'

theorem mem_remaining {b : Boundary κ} {r : ρ} :
    r ∈ remaining key wanted b rows ↔ r ∈ rows ∧ wanted r = true ∧ ¬b.Passed (key r) := by
  unfold remaining
  rw [List.mem_mergeSort, List.mem_filter, Bool.and_eq_true, Bool.not_eq_true', decide_eq_false_iff_not]

/-- Keys that differ go strictly down. -/
theorem remaining_descending {b : Boundary κ} (h : (rows.map key).Nodup) :
    (remaining key wanted b rows).Pairwise fun x y => key y < key x := by
  unfold remaining
  set found := rows.filter fun r => wanted r && !decide (b.Passed (key r)) with hfound
  have hnd : ((found.mergeSort fun x y => decide (key y ≤ key x)).map key).Nodup := by
    refine ((List.mergeSort_perm found _).map key).nodup_iff.mpr ?_
    exact h.sublist (List.filter_sublist.map key)
  have hsorted : (found.mergeSort fun x y => decide (key y ≤ key x)).Pairwise fun x y => decide (key y ≤ key x) = true := by
    refine List.pairwise_mergeSort (fun x y z hxy hyz => ?_) (fun x y => ?_) found
    · rw [decide_eq_true_eq] at *
      exact le_trans hyz hxy
    · simp only [Bool.or_eq_true, decide_eq_true_eq]
      exact le_total _ _
  refine (hsorted.and (List.pairwise_map.mp hnd)).imp fun {x y} hxy => ?_
  exact lt_of_le_of_ne (decide_eq_true_eq.mp hxy.1) (Ne.symm hxy.2)

/-- A page is all there is, or it is full, ends with its last row, and leaves some rows. -/
theorem page_spec {limit : ℕ} (hlimit : 0 < limit) (l : List ρ) :
    ((page limit l).2 = none ∧ (page limit l).1 = l ∧ l.length ≤ limit) ∨
      ∃ last rest, (page limit l).2 = some last ∧ (page limit l).1.getLast? = some last ∧
        l = (page limit l).1 ++ rest ∧ rest ≠ [] ∧ (page limit l).1.length = limit := by
  unfold page
  simp only [List.length_take, List.take_take, Nat.min_eq_left (Nat.le_succ limit)]
  by_cases h : limit < l.length
  · right
    rw [if_pos (by omega)]
    have hne : l.take limit ≠ [] := by
      intro h0
      have := congrArg List.length h0
      rw [List.length_take, List.length_nil] at this
      omega
    refine ⟨(l.take limit).getLast hne, l.drop limit, List.getLast?_eq_some_getLast hne, List.getLast?_eq_some_getLast hne,
      (List.take_append_drop limit l).symm, ?_, ?_⟩
    · intro h0
      have := congrArg List.length h0
      rw [List.length_drop, List.length_nil] at this
      omega
    · rw [List.length_take]
      omega
  · left
    rw [if_neg (by omega)]
    exact ⟨rfl, List.take_of_length_le (by omega), by omega⟩

/-- What a walk has seen: rows of the table, wanted and strictly descending, and every wanted row of the table it began with whose
key has had its turn. -/
structure Walked (key : ρ → κ) (wanted : ρ → Bool) (before rows seen : List ρ) (b : Boundary κ) : Prop where
  descending : seen.Pairwise fun x y => key y < key x
  listed : ∀ r ∈ seen, r ∈ rows ∧ wanted r = true
  passed : ∀ r ∈ seen, b.Passed (key r)
  complete : ∀ r ∈ before, wanted r = true → b.Passed (key r) → r ∈ seen

namespace Walked

variable {b : Boundary κ}

theorem start : Walked key wanted before rows [] .start where
  descending := .nil
  listed _ h := absurd h List.not_mem_nil
  passed _ h := absurd h List.not_mem_nil
  complete _ _ _ h := absurd h not_false

/-- Inserting rows changes nothing that a walk has seen. -/
theorem insert (h : Walked key wanted before rows seen b) (hrows : ∀ r ∈ rows, r ∈ rows') :
    Walked key wanted before rows' seen b where
  descending := h.descending
  listed r hr := ⟨hrows r (h.listed r hr).1, (h.listed r hr).2⟩
  passed := h.passed
  complete := h.complete

/-- A page of what remains. -/
theorem page (h : Walked key wanted before rows seen b) (hkeys : (rows.map key).Nodup) (hbefore : ∀ r ∈ before, r ∈ rows)
    {limit : ℕ} (hlimit : 0 < limit) :
    Walked key wanted before rows (seen ++ (Keyset.page limit (remaining key wanted b rows)).1)
      (.ofLast key (Keyset.page limit (remaining key wanted b rows)).2) := by
  have hdesc : (remaining key wanted b rows).Pairwise fun x y => key y < key x := remaining_descending hkeys
  -- the page is a first part of what remains
  have hpart : ∃ rest, remaining key wanted b rows = (Keyset.page limit (remaining key wanted b rows)).1 ++ rest := by
    rcases page_spec hlimit (remaining key wanted b rows) with ⟨-, h1, -⟩ | ⟨_, rest, -, -, h1, -⟩
    · exact ⟨[], by rw [h1, List.append_nil]⟩
    · exact ⟨rest, h1⟩
  obtain ⟨rest, hrest⟩ := hpart
  have hmem : ∀ r ∈ (Keyset.page limit (remaining key wanted b rows)).1, r ∈ rows ∧ wanted r = true ∧ ¬b.Passed (key r) := by
    intro r hr
    refine mem_remaining.mp ?_
    rw [hrest]
    exact List.mem_append_left _ hr
  have hdesc' : (Keyset.page limit (remaining key wanted b rows)).1.Pairwise fun x y => key y < key x := by
    rw [hrest] at hdesc
    exact (List.pairwise_append.mp hdesc).1
  refine ⟨?_, ?_, ?_, ?_⟩
  · refine List.pairwise_append.mpr ⟨h.descending, hdesc', fun x hx y hy => ?_⟩
    exact Boundary.lt_of_passed (h.passed x hx) (hmem y hy).2.2
  · intro r hr
    rcases List.mem_append.mp hr with hr | hr
    · exact h.listed r hr
    · exact ⟨(hmem r hr).1, (hmem r hr).2.1⟩
  · intro r hr
    rcases page_spec hlimit (remaining key wanted b rows) with ⟨h2, -⟩ | ⟨last, _, h2, hlast, -⟩
    · rw [h2]
      trivial
    · rw [h2]
      have hlastMem := List.mem_of_getLast? hlast
      rcases List.mem_append.mp hr with hr | hr
      · exact le_of_lt (Boundary.lt_of_passed (h.passed r hr) (hmem last hlastMem).2.2)
      · -- the last row of a descending page is its least
        obtain ⟨init, hinit⟩ := List.getLast?_eq_some_iff.mp hlast
        rw [hinit] at hdesc' hr
        rcases List.mem_append.mp hr with hr | hr
        · exact le_of_lt ((List.pairwise_append.mp hdesc').2.2 r hr last (List.mem_singleton_self last))
        · rw [List.mem_singleton.mp hr]
          exact le_refl _
  · intro r hr hw hpassed
    by_cases hold : b.Passed (key r)
    · exact List.mem_append_left _ (h.complete r hr hw hold)
    refine List.mem_append_right _ ?_
    have hin : r ∈ remaining key wanted b rows := mem_remaining.mpr ⟨hbefore r hr, hw, hold⟩
    rcases page_spec hlimit (remaining key wanted b rows) with ⟨-, h1, -⟩ | ⟨last, rest', h2, hlast, hrest', -⟩
    · rw [h1]
      exact hin
    · rw [h2] at hpassed
      rw [hrest'] at hin hdesc
      rcases List.mem_append.mp hin with hin | hin
      · exact hin
      · have hlt := (List.pairwise_append.mp hdesc).2.2 last (List.mem_of_getLast? hlast) r hin
        exact absurd (lt_of_lt_of_le hlt hpassed) (lt_irrefl _)

end Walked

/-- After a page that is not the last, less remains. -/
theorem remaining_lt {b : Boundary κ} {limit : ℕ} (hlimit : 0 < limit) {last : ρ}
    (h : (page limit (remaining key wanted b rows)).2 = some last) :
    (remaining key wanted (.after (key last)) rows).length < (remaining key wanted b rows).length := by
  have hlast : last ∈ remaining key wanted b rows := by
    rcases page_spec hlimit (remaining key wanted b rows) with ⟨h2, -⟩ | ⟨last', rest, h2, hl, hrest, -⟩
    · rw [h] at h2
      cases h2
    · rw [h] at h2
      cases h2
      rw [hrest]
      exact List.mem_append_left _ (List.mem_of_getLast? hl)
  obtain ⟨hrows, hw, hnot⟩ := mem_remaining.mp hlast
  unfold remaining
  rw [List.length_mergeSort, List.length_mergeSort]
  -- the rows below the last one are among those that remained, and the last one is not
  have hfilter : (rows.filter fun r => wanted r && !decide ((Boundary.after (key last)).Passed (key r))) =
      (rows.filter fun r => wanted r && !decide (b.Passed (key r))).filter fun r => decide (key r < key last) := by
    rw [List.filter_filter]
    refine List.filter_congr fun r _ => ?_
    rw [Bool.eq_iff_iff, Bool.and_eq_true, Bool.and_eq_true, Bool.and_eq_true, Bool.not_eq_true', Bool.not_eq_true',
      decide_eq_false_iff_not, decide_eq_false_iff_not, decide_eq_true_eq]
    constructor
    · rintro ⟨h1, h2⟩
      have hlt : key r < key last := not_le.mp h2
      refine ⟨hlt, h1, fun h3 => ?_⟩
      exact absurd (lt_trans hlt (Boundary.lt_of_passed h3 hnot)) (lt_irrefl _)
    · rintro ⟨h1, h2, -⟩
      exact ⟨h2, not_le.mpr h1⟩
  rw [hfilter, List.length_filter_lt_length_iff_exists]
  refine ⟨last, ?_, by simp⟩
  rw [List.mem_filter, Bool.and_eq_true, Bool.not_eq_true', decide_eq_false_iff_not]
  exact ⟨hrows, hw, hnot⟩

end Keyset
