import FraudDetection.Lemmas.Visit
import FraudDetection.Lib.Jsonb

/-!
# The JSON of an accepted condition

A condition that the static check accepts has one key in every object and only finite floats, so PostgreSQL reorders nothing in
it and refuses none of its numbers.
-/

namespace FraudDetection

open Json

namespace StoredAux

/-- One key in every object, and only finite floats. -/
def WellFormed (j : Json) : Prop := SingleKeys j ∧ ∀ f, Json.float f ∈ leaves j → f.isFinite = true

theorem wellFormed_arr {items : List Json} (h : ∀ item ∈ items, WellFormed item) : WellFormed (.arr items) := by
  induction items with
  | nil => exact ⟨trivial, by simp [leaves, leavesOfItems]⟩
  | cons item items ih =>
    obtain ⟨hs, hf⟩ := h item (by simp)
    obtain ⟨hs', hf'⟩ := ih fun i hi => h i (by simp [hi])
    refine ⟨⟨hs, hs'⟩, fun f hm => ?_⟩
    rcases List.mem_append.mp hm with hm | hm
    · exact hf f hm
    · exact hf' f hm

theorem wellFormed_obj {key : String} {value : Json} (h : WellFormed value) : WellFormed (.obj [(key, value)]) := by
  refine ⟨⟨rfl, h.1, trivial⟩, fun f hm => ?_⟩
  simp only [leaves, leavesOfEntries, List.append_nil, List.mem_cons, reduceCtorEq, false_or] at hm
  exact h.2 f hm

/-- An argument outside a list is the only one. -/
theorem wellFormed_of_args {raw : Json} (h : ∀ arg ∈ operatorArgs raw, WellFormed arg) : WellFormed raw := by
  cases raw with
  | arr items => exact wellFormed_arr h
  | _ => exact h _ (by simp [operatorArgs])

theorem wellFormed_literal {node : Json} (h : SoundnessAux.IsLiteral node) : WellFormed node := by
  cases node with
  | float f =>
    refine ⟨trivial, fun g hm => ?_⟩
    simp only [leaves, List.mem_singleton, Json.float.injEq] at hm
    exact hm ▸ h
  | arr items => exact h.elim
  | obj entries => exact h.elim
  | _ => exact ⟨trivial, by simp [leaves]⟩

/-- By induction on the levels of nesting: every part was accepted one level down. -/
theorem wellFormed_of_visit {path : String} {levels : ℕ} :
    ∀ {node : Json} {location : String} {count count' : ℕ} {type : NodeType},
      visit path levels node location count = .ok (type, count') → WellFormed node := by
  induction levels with
  | zero =>
    intro _ _ _ _ _ h
    obtain ⟨_, hl, -⟩ := SoundnessAux.visit_cases h
    cases hl
  | succ levels ih =>
    intro node location count count' type h
    obtain ⟨l, hl, h⟩ := SoundnessAux.visit_cases h
    cases hl
    have each : ∀ {items : List Json} {types : List NodeType} {loc : ℕ → String} {count count' : ℕ},
        visitEach (visit path levels) loc 0 items count = .ok (types, count') → ∀ item ∈ items, WellFormed item := by
      intro items types loc count count' hv item hm
      obtain ⟨i, hi, rfl⟩ := List.mem_iff_getElem.mp hm
      have hall := SoundnessAux.visitEach_ok hv
      obtain ⟨_, _, _, ht⟩ := hall.get hi (hall.length_eq ▸ hi)
      exact ih ht
    rcases h with ⟨items, types, loc, rfl, hv, -, -⟩ | ⟨operator, raw, lo, hi, rfl, har, -, hhi, hv⟩ | ⟨hn, -⟩
    · exact wellFormed_arr (each hv)
    · refine wellFormed_obj (wellFormed_of_args ?_)
      rcases hv with ⟨rfl, hv⟩ | ⟨-, types, loc, hv, -⟩
      · obtain ⟨name, declared, rest, ha, -, -, hrest⟩ := SoundnessAux.checkVariable_ok hv
        have hname : WellFormed (.str name) := ⟨trivial, by simp [leaves]⟩
        intro arg hm
        rw [ha] at hm
        rcases hrest with ⟨rfl, -⟩ | ⟨default, more, rfl, _, _, _, hdef⟩
        · exact List.mem_singleton.mp hm ▸ hname
        · have hlen := hhi 2 ((SoundnessAux.arity_cases har).2.2.2 rfl)
          rw [ha] at hlen
          simp only [List.length_cons] at hlen
          have hmore : more = [] := List.eq_nil_of_length_eq_zero (by omega)
          subst hmore
          simp only [List.mem_cons, List.not_mem_nil, or_false] at hm
          rcases hm with rfl | rfl
          · exact hname
          · exact ih hdef
      · exact each hv
    · exact wellFormed_literal hn

/-- The condition of a rule is well-formed. -/
theorem wellFormed_condition (rule : RuleDefinition) : WellFormed (.obj rule.condition) := by
  obtain ⟨p, hv, -⟩ := Except.bind_eq_ok.mp rule.condition_ok
  exact wellFormed_of_visit hv

end StoredAux

end FraudDetection
