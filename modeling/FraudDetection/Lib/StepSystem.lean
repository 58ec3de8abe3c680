import Mathlib.Logic.Function.Basic

/-!
# Systems that take steps

A state and a step for each event that can happen in it; a run is a list of events. An invariant that holds at the start and
that every step keeps holds in every reachable state; a relation that every step establishes, and that is reflexive and
transitive, holds between the two ends of every run. Both rules have a form for the runs whose steps meet a condition.
-/

/-- A system: the states it may start in, and what an event does in a state (`none`: it cannot happen there). -/
structure StepSystem (σ ε : Type _) where
  start : σ → Prop
  step : σ → ε → Option σ

namespace StepSystem

variable {σ ε : Type _} (S : StepSystem σ ε)

/-- The state after some events, when each of them can happen in its turn. -/
def run : σ → List ε → Option σ
  | s, [] => some s
  | s, e :: es => (S.step s e).bind fun s' => run s' es

/-- The states reached by steps that all meet a condition. -/
inductive ReachableWhen (guard : σ → ε → Prop) : σ → Prop where
  | start {s : σ} (h : S.start s) : ReachableWhen guard s
  | step {s s' : σ} {e : ε} (h : ReachableWhen guard s) (hg : guard s e) (hs : S.step s e = some s') :
      ReachableWhen guard s'

/-- The states the system can be in. -/
abbrev Reachable : σ → Prop := S.ReachableWhen fun _ _ => True

/-- Every step of a run meets a condition. -/
def Meets (guard : σ → ε → Prop) : σ → List ε → Prop
  | _, [] => True
  | s, e :: es => guard s e ∧ ∀ s', S.step s e = some s' → Meets guard s' es

/-- The steps of a run, as far as it goes: each event with the state it happens in. -/
def taken : σ → List ε → List (σ × ε)
  | _, [] => []
  | s, e :: es => (s, e) :: ((S.step s e).map fun s' => taken s' es).getD []

variable {S}

theorem run_cons {s s' : σ} {e : ε} {es : List ε} (h : S.run s (e :: es) = some s') :
    ∃ t, S.step s e = some t ∧ S.run t es = some s' := Option.bind_eq_some_iff.mp h

/-- What holds at the start and is kept by every step that meets the condition holds wherever such steps lead. -/
theorem ReachableWhen.invariant {guard : σ → ε → Prop} {Inv : σ → Prop} (hstart : ∀ s, S.start s → Inv s)
    (hstep : ∀ s e s', Inv s → guard s e → S.step s e = some s' → Inv s') {s : σ} (h : S.ReachableWhen guard s) : Inv s := by
  induction h with
  | start h => exact hstart _ h
  | step _ hg hs ih => exact hstep _ _ _ ih hg hs

/-- What holds at the start and is kept by every step holds in every reachable state. -/
theorem Reachable.invariant {Inv : σ → Prop} (hstart : ∀ s, S.start s → Inv s)
    (hstep : ∀ s e s', Inv s → S.step s e = some s' → Inv s') {s : σ} (h : S.Reachable s) : Inv s :=
  ReachableWhen.invariant hstart (fun s e s' hi _ hs => hstep s e s' hi hs) h

/-- A state reached by steps that meet a condition is reachable. -/
theorem ReachableWhen.reachable {guard : σ → ε → Prop} {s : σ} (h : S.ReachableWhen guard s) : S.Reachable s := by
  induction h with
  | start h => exact .start h
  | step _ _ hs ih => exact .step ih trivial hs

/-- A run from a reachable state ends in one. -/
theorem Reachable.run {s s' : σ} {es : List ε} (h : S.Reachable s) (hr : S.run s es = some s') : S.Reachable s' := by
  induction es generalizing s with
  | nil => cases hr; exact h
  | cons e es ih =>
    obtain ⟨t, ht, hr⟩ := run_cons hr
    exact ih (.step h trivial ht) hr

/-- A run whose steps all meet the condition stays among the states such steps reach. -/
theorem ReachableWhen.run {guard : σ → ε → Prop} {s s' : σ} {es : List ε} (h : S.ReachableWhen guard s)
    (hm : S.Meets guard s es) (hr : S.run s es = some s') : S.ReachableWhen guard s' := by
  induction es generalizing s with
  | nil => cases hr; exact h
  | cons e es ih =>
    obtain ⟨t, ht, hr⟩ := run_cons hr
    exact ih (.step h hm.1 ht) (hm.2 t ht) hr

/-- A condition that holds of some events in every state is met by every run of such events. -/
theorem meets_of_forall {guard : σ → ε → Prop} {es : List ε} (h : ∀ e ∈ es, ∀ s, guard s e) (s : σ) : S.Meets guard s es := by
  induction es generalizing s with
  | nil => trivial
  | cons e es ih => exact ⟨h e List.mem_cons_self s, fun s' _ => ih (fun e' he => h e' (List.mem_cons_of_mem e he)) s'⟩

/-- The steps of a run are its events. -/
theorem mem_of_taken {es : List ε} : ∀ {s t : σ} {e : ε}, (t, e) ∈ S.taken s es → e ∈ es := by
  induction es with
  | nil =>
    intro s t e h
    cases h
  | cons first es ih =>
    intro s t e h
    rcases List.mem_cons.mp h with h | h
    · cases h
      exact List.mem_cons_self
    · cases hs : S.step s first with
      | none =>
        rw [hs] at h
        cases h
      | some s' =>
        rw [hs] at h
        exact List.mem_cons_of_mem first (ih h)

/-- A run meets a condition when each of its steps does. -/
theorem meets_of_taken {guard : σ → ε → Prop} {es : List ε} {s : σ} (h : ∀ taken ∈ S.taken s es, guard taken.1 taken.2) :
    S.Meets guard s es := by
  induction es generalizing s with
  | nil => trivial
  | cons e es ih =>
    refine ⟨h (s, e) List.mem_cons_self, fun s' hs' => ih fun taken htaken => h taken (List.mem_cons_of_mem _ ?_)⟩
    rw [hs']
    exact htaken

/-- What holds before a run whose steps all meet a condition, and is kept by every such step, holds after it. -/
theorem Meets.invariant {guard : σ → ε → Prop} {Inv : σ → Prop}
    (hstep : ∀ s e s', Inv s → guard s e → S.step s e = some s' → Inv s') {es : List ε} {s s' : σ} (hm : S.Meets guard s es)
    (hr : S.run s es = some s') (hi : Inv s) : Inv s' := by
  induction es generalizing s with
  | nil => cases hr; exact hi
  | cons e es ih =>
    obtain ⟨t, ht, hr⟩ := run_cons hr
    exact ih (hm.2 t ht) hr (hstep s e t hi hm.1 ht)

/-- What every step from a reachable state establishes between its ends, a run establishes between its ends. -/
theorem Reachable.run_rel {R : σ → σ → Prop} (hrefl : ∀ s, R s s) (htrans : ∀ s t u, R s t → R t u → R s u)
    (hstep : ∀ s e s', S.Reachable s → S.step s e = some s' → R s s') {es : List ε} :
    ∀ {s s' : σ}, S.Reachable s → S.run s es = some s' → R s s' := by
  induction es with
  | nil =>
    intro s s' _ hr
    cases hr
    exact hrefl s
  | cons e es ih =>
    intro s s' h hr
    obtain ⟨t, ht, hr⟩ := run_cons hr
    exact htrans s t s' (hstep s e t h ht) (ih (.step h trivial ht) hr)

/-- What a table of parties holds after one entry is written: the new entry at its place, what it held elsewhere. -/
theorem update_cases {ι α : Type _} [DecidableEq ι] {f : ι → α} {i j : ι} {a b : α} (h : Function.update f i a j = b) :
    (j = i ∧ a = b) ∨ (j ≠ i ∧ f j = b) := by
  by_cases heq : j = i
  · rw [heq, Function.update_self] at h
    exact .inl ⟨heq, h⟩
  · rw [Function.update_of_ne heq] at h
    exact .inr ⟨heq, h⟩

end StepSystem
