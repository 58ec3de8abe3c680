import Mathlib.Data.List.Basic
import Mathlib.Order.Basic

/-!
# Working off what is delivered, in order

Items are delivered at increasing positions and are worked off from the front. Now and then a mark is set: the position after the
last item that is done. Then the marks increase, and whatever was delivered below a mark is done.
-/

/-- `delivered` came in order of its positions; all of it but `pending` is done; and each mark is the position after an item that is
done, in the order of the items. -/
structure InOrder {α : Type*} (position : α → ℕ) (Done : α → Prop) (delivered : List α) (marks : List ℕ) (pending : List α) :
    Prop where
  increasing : delivered.Pairwise fun x y => position x < position y
  split : ∃ finished, delivered = finished ++ pending ∧ (∀ x ∈ finished, Done x) ∧
    List.Sublist marks (finished.map fun x => position x + 1)

namespace InOrder

variable {α : Type*} {position : α → ℕ} {Done Done' : α → Prop} {delivered pending : List α} {marks : List ℕ}

/-- At first. -/
theorem empty : InOrder position Done [] [] [] where
  increasing := List.Pairwise.nil
  split := ⟨[], rfl, by simp, List.nil_sublist _⟩

/-- What is done stays done. -/
theorem mono (h : InOrder position Done delivered marks pending) (hd : ∀ x, Done x → Done' x) :
    InOrder position Done' delivered marks pending := by
  obtain ⟨finished, hsplit, hdone, hmarks⟩ := h.split
  exact ⟨h.increasing, finished, hsplit, fun x hx => hd x (hdone x hx), hmarks⟩

/-- One more item is delivered, at a higher position. -/
theorem deliver (h : InOrder position Done delivered marks pending) {x : α} (hx : ∀ y ∈ delivered, position y < position x) :
    InOrder position Done (delivered ++ [x]) marks (pending ++ [x]) := by
  obtain ⟨finished, hsplit, hdone, hmarks⟩ := h.split
  refine ⟨List.pairwise_append.mpr ⟨h.increasing, List.pairwise_singleton _ _, ?_⟩, finished, ?_, hdone, hmarks⟩
  · intro y hy z hz
    rw [List.mem_singleton.mp hz]
    exact hx y hy
  · rw [hsplit, List.append_assoc]

/-- The first pending item is done. -/
theorem finish {x : α} (h : InOrder position Done delivered marks (x :: pending)) (hx : Done x) :
    InOrder position Done delivered marks pending := by
  obtain ⟨finished, hsplit, hdone, hmarks⟩ := h.split
  refine ⟨h.increasing, finished ++ [x], by rw [hsplit, List.append_assoc]; rfl, ?_, ?_⟩
  · intro y hy
    rcases List.mem_append.mp hy with hy | hy
    · exact hdone y hy
    · rw [List.mem_singleton.mp hy]
      exact hx
  · rw [List.map_append]
    exact hmarks.trans (List.sublist_append_left _ _)

/-- The first pending item is done, and a mark is set after it. -/
theorem mark {x : α} (h : InOrder position Done delivered marks (x :: pending)) (hx : Done x) :
    InOrder position Done delivered (marks ++ [position x + 1]) pending := by
  obtain ⟨finished, hsplit, hdone, hmarks⟩ := h.split
  refine ⟨h.increasing, finished ++ [x], by rw [hsplit, List.append_assoc]; rfl, ?_, ?_⟩
  · intro y hy
    rcases List.mem_append.mp hy with hy | hy
    · exact hdone y hy
    · rw [List.mem_singleton.mp hy]
      exact hx
  · rw [List.map_append]
    exact hmarks.append (List.Sublist.refl _)

/-- Marks increase. -/
theorem marks_increase (h : InOrder position Done delivered marks pending) : marks.Pairwise (· < ·) := by
  obtain ⟨finished, hsplit, -, hmarks⟩ := h.split
  refine List.Pairwise.sublist hmarks (List.pairwise_map.mpr ?_)
  have hfinished := h.increasing
  rw [hsplit] at hfinished
  exact (List.pairwise_append.mp hfinished).1.imp fun hlt => Nat.succ_lt_succ hlt

/-- What was delivered below a mark is done. -/
theorem covered (h : InOrder position Done delivered marks pending) {mark : ℕ} (hm : mark ∈ marks) {x : α} (hx : x ∈ delivered)
    (hlt : position x < mark) : Done x := by
  obtain ⟨finished, hsplit, hdone, hmarks⟩ := h.split
  obtain ⟨y, hy, rfl⟩ := List.mem_map.mp (hmarks.subset hm)
  have hincreasing := h.increasing
  rw [hsplit] at hx hincreasing
  rcases List.mem_append.mp hx with hx | hx
  · exact hdone x hx
  · -- a pending item comes after every item that is done
    have hafter := (List.pairwise_append.mp hincreasing).2.2 y hy x hx
    omega

end InOrder
