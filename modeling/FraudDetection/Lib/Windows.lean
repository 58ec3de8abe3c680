import Mathlib.Data.List.Chain
import Mathlib.Data.List.Count

/-!
# Windows that follow each other

A list of windows in time order, and one thing that each of them may reach back to and may see already: later windows reach less
far and see more. It is counted by the windows that do both. Exactly one counts it when the last one sees it and each window sees
it just if the next no longer reaches it.
-/

namespace Windows

variable {ω : Type _} {reaches sees : ω → Bool}

/-- Where the windows of a list no longer reach, none of them counts. -/
theorem countP_eq_zero {ws : List ω} (h : ∀ w ∈ ws, reaches w = false) : ws.countP (fun w => reaches w && sees w) = 0 := by
  refine List.countP_eq_zero.mpr fun w hw => ?_
  rw [h w hw]
  exact Bool.false_ne_true

/-- A window that no longer reaches is followed by none that does. -/
theorem not_reaches_of_head {w : ω} {ws : List ω} (hr : (w :: ws).Pairwise fun v v' => reaches v' → reaches v)
    (h : reaches w = false) : ∀ v ∈ w :: ws, reaches v = false := by
  intro v hv
  rcases List.mem_cons.mp hv with rfl | hv
  · exact h
  · by_contra hv'
    have := List.rel_of_pairwise_cons hr hv (by simpa using hv')
    rw [h] at this
    cases this

/-- Windows that all see, and no longer reach, join. -/
theorem isChain_of_seen {ws : List ω} (hs : ∀ w ∈ ws, sees w = true) (hr : ∀ w ∈ ws, reaches w = false) :
    ws.IsChain fun w w' => sees w = true ↔ reaches w' = false := by
  induction ws with
  | nil => exact .nil
  | cons w ws ih =>
    have hw := hs w List.mem_cons_self
    refine List.isChain_cons.mpr ⟨fun w' hw' => ?_, ih (fun v hv => hs v (List.mem_cons_of_mem _ hv))
      (fun v hv => hr v (List.mem_cons_of_mem _ hv))⟩
    have hr' := hr w' (List.mem_cons_of_mem _ (List.mem_of_mem_head? hw'))
    simp [hw, hr']

/-- Exactly one window counts a thing that the first one reaches, just if the last one sees it and each window joins the next. -/
theorem countP_eq_one_iff {w : ω} {ws : List ω} (hr : (w :: ws).Pairwise fun v v' => reaches v' → reaches v)
    (hs : (w :: ws).Pairwise fun v v' => sees v → sees v') (hfirst : reaches w = true) :
    (w :: ws).countP (fun v => reaches v && sees v) = 1 ↔
      sees ((w :: ws).getLast (List.cons_ne_nil w ws)) = true ∧
        (w :: ws).IsChain fun v v' => sees v = true ↔ reaches v' = false := by
  induction ws generalizing w with
  | nil => simp [List.countP_cons, hfirst]
  | cons w' ws ih =>
    have hr' := List.Pairwise.of_cons hr
    have hs' := List.Pairwise.of_cons hs
    rw [List.countP_cons, List.getLast_cons (List.cons_ne_nil w' ws), List.isChain_cons_cons, hfirst, Bool.true_and]
    cases hw : sees w with
    | true =>
      -- Every later window sees it too, so none of them may reach it.
      have hall : ∀ v ∈ w' :: ws, sees v = true := fun v hv => List.rel_of_pairwise_cons hs hv hw
      simp only [if_true, Nat.add_eq_right, true_iff]
      constructor
      · intro hzero
        have hnone : ∀ v ∈ w' :: ws, reaches v = false := by
          intro v hv
          have := List.countP_eq_zero.mp hzero v hv
          simpa [hall v hv] using this
        exact ⟨hall _ (List.getLast_mem _), hnone w' List.mem_cons_self, isChain_of_seen hall hnone⟩
      · rintro ⟨-, hw', -⟩
        exact countP_eq_zero (not_reaches_of_head hr' hw')
    | false =>
      cases hw' : reaches w' with
      | true => simpa using ih hr' hs' hw'
      | false => simp [countP_eq_zero (not_reaches_of_head hr' hw')]

end Windows
