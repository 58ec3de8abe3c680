import FraudDetection.Lib.StepSystem

/-!
# Simulation and linearizability

A system refines another when each of its steps is a run of the other, between states that are related. The events of the other
system that a run amounts to are read off the run as it goes, so they only grow with it.

The calls of a system are linearizable when the system refines, in this way, an object whose operations take effect at once: each
call takes effect once, between its beginning and its answer, and all of them in one order.
-/

namespace StepSystem

variable {σ ε α δ : Type _}

/-! ## Runs and what they emit -/

/-- A run in two parts. -/
theorem run_append {S : StepSystem σ ε} {s t : σ} {es : List ε} (h : S.run s es = some t) (es' : List ε) :
    S.run s (es ++ es') = S.run t es' := by
  induction es generalizing s with
  | nil =>
    cases h
    rfl
  | cons e es ih =>
    obtain ⟨u, hu, hr⟩ := run_cons h
    simp only [List.cons_append, run, hu, Option.bind_some]
    exact ih hr

/-- The steps of a run in two parts. -/
theorem taken_append {S : StepSystem σ ε} {s t : σ} {es : List ε} (h : S.run s es = some t) (es' : List ε) :
    S.taken s (es ++ es') = S.taken s es ++ S.taken t es' := by
  induction es generalizing s with
  | nil =>
    cases h
    rfl
  | cons e es ih =>
    obtain ⟨u, hu, hr⟩ := run_cons h
    simp only [List.cons_append, taken, hu, Option.map_some, Option.getD_some]
    rw [ih hr]

/-- The events of another system that a run amounts to: those of each step, in order. -/
def emitted (S : StepSystem σ ε) (events : σ → ε → List δ) : σ → List ε → List δ
  | _, [] => []
  | s, e :: es => events s e ++ ((S.step s e).map fun s' => S.emitted events s' es).getD []

theorem emitted_cons {S : StepSystem σ ε} {s t : σ} {e : ε} (events : σ → ε → List δ) (h : S.step s e = some t)
    (es : List ε) : S.emitted events s (e :: es) = events s e ++ S.emitted events t es := by
  simp only [emitted, h, Option.map_some, Option.getD_some]

/-- What a run emits only grows as the run goes on. -/
theorem emitted_prefix (S : StepSystem σ ε) (events : σ → ε → List δ) (s : σ) (es es' : List ε) :
    S.emitted events s es <+: S.emitted events s (es ++ es') := by
  induction es generalizing s with
  | nil => exact List.nil_prefix
  | cons e es ih =>
    simp only [List.cons_append, emitted]
    refine List.prefix_append_right_inj _ |>.mpr ?_
    cases h : S.step s e with
    | none => exact List.prefix_refl _
    | some t => exact ih t

/-- What a step that meets a condition keeps of the state and of all that was emitted, a run of such steps keeps. -/
theorem Meets.emitted_invariant {S : StepSystem σ ε} {guard : σ → ε → Prop} {events : σ → ε → List δ}
    (Inv : σ → List δ → Prop)
    (hstep : ∀ s done e s', Inv s done → guard s e → S.step s e = some s' → Inv s' (done ++ events s e)) {es : List ε}
    {s s' : σ} {done : List δ} (hm : S.Meets guard s es) (hr : S.run s es = some s') (hi : Inv s done) :
    Inv s' (done ++ S.emitted events s es) := by
  induction es generalizing s done with
  | nil =>
    cases hr
    rw [emitted, List.append_nil]
    exact hi
  | cons e es ih =>
    obtain ⟨t, ht, hr⟩ := run_cons hr
    rw [emitted_cons events ht, ← List.append_assoc]
    exact ih (hm.2 t ht) hr (hstep s done e t hi hm.1 ht)

/-- What every step keeps of the state and of all that was emitted, a run keeps. -/
theorem emitted_invariant {S : StepSystem σ ε} {events : σ → ε → List δ} (Inv : σ → List δ → Prop)
    (hstep : ∀ s done e s', Inv s done → S.step s e = some s' → Inv s' (done ++ events s e)) {es : List ε} {s s' : σ}
    {done : List δ} (hr : S.run s es = some s') (hi : Inv s done) : Inv s' (done ++ S.emitted events s es) :=
  Meets.emitted_invariant Inv (fun s done e s' hi _ hs => hstep s done e s' hi hs)
    (meets_of_forall (fun _ _ _ => trivial) _ : S.Meets (fun _ _ => True) s es) hr hi

/-! ## Simulation -/

/-- A refinement of one system by another, step by step. -/
structure Simulation (C : StepSystem σ ε) (A : StepSystem α δ) where
  Rel : σ → α → Prop
  /-- What a step amounts to. -/
  events : σ → ε → List δ
  start : ∀ s, C.start s → ∃ a, A.start a ∧ Rel s a
  step : ∀ s a e s', C.Reachable s → A.Reachable a → Rel s a → C.step s e = some s' →
    ∃ a', A.run a (events s e) = some a' ∧ Rel s' a'

namespace Simulation

variable {C : StepSystem σ ε} {A : StepSystem α δ}

/-- A run is a run of the other system, of what it emits. -/
theorem run (R : Simulation C A) {s s' : σ} {a : α} {es : List ε} (hs : C.Reachable s) (ha : A.Reachable a)
    (hrel : R.Rel s a) (hr : C.run s es = some s') : ∃ a', A.run a (C.emitted R.events s es) = some a' ∧ R.Rel s' a' := by
  induction es generalizing s a with
  | nil =>
    cases hr
    exact ⟨a, rfl, hrel⟩
  | cons e es ih =>
    obtain ⟨t, ht, hr⟩ := run_cons hr
    obtain ⟨b, hb, hrel⟩ := R.step s a e t hs ha hrel ht
    obtain ⟨a', ha', hrel'⟩ := ih (.step hs trivial ht) (ha.run hb) hrel hr
    refine ⟨a', ?_, hrel'⟩
    rw [emitted_cons R.events ht, run_append hb]
    exact ha'

/-- A reachable state is related to a reachable state of the other system, so it has what every such state has. -/
theorem reachable (R : Simulation C A) {s : σ} (h : C.Reachable s) : ∃ a, A.Reachable a ∧ R.Rel s a := by
  induction h with
  | start h =>
    obtain ⟨a, ha, hrel⟩ := R.start _ h
    exact ⟨a, .start ha, hrel⟩
  | step h _ hs ih =>
    obtain ⟨a, ha, hrel⟩ := ih
    obtain ⟨a', hr, hrel'⟩ := R.step _ a _ _ h ha hrel hs
    exact ⟨a', ha.run hr, hrel'⟩

end Simulation

/-! ## Atomic objects -/

/-- An object whose operations take effect at once. -/
structure AtomicObject (α ι ρ : Type _) where
  initial : α
  apply : α → ι → α × ρ

/-- An object, and what each call has done to it and been told. -/
structure Called (κ α ι ρ : Type _) where
  object : α
  performed : κ → Option (ι × ρ)

variable {κ ι ρ γ : Type _} [DecidableEq κ]

/-- The calls of an object, each of which takes effect at most once. -/
def AtomicObject.calls (O : AtomicObject α ι ρ) (κ : Type _) [DecidableEq κ] : StepSystem (Called κ α ι ρ) (κ × ι) where
  start a := a = ⟨O.initial, fun _ => none⟩
  step a call :=
    match a.performed call.1 with
    | none => some ⟨(O.apply a.object call.2).1,
        Function.update a.performed call.1 (some (call.2, (O.apply a.object call.2).2))⟩
    | some _ => none

namespace AtomicObject

variable {O : AtomicObject α ι ρ}

theorem calls_step {a a' : Called κ α ι ρ} {call : κ × ι} (h : (O.calls κ).step a call = some a') :
    a.performed call.1 = none ∧ a' = ⟨(O.apply a.object call.2).1,
      Function.update a.performed call.1 (some (call.2, (O.apply a.object call.2).2))⟩ := by
  simp only [calls] at h
  split at h
  · rename_i hn
    exact ⟨hn, (Option.some.inj h).symm⟩
  · cases h

/-- What a call was told does not change. -/
theorem performed_mono {a a' : Called κ α ι ρ} {calls : List (κ × ι)} (hr : (O.calls κ).run a calls = some a') {k : κ}
    {x : ι × ρ} (h : a.performed k = some x) : a'.performed k = some x := by
  induction calls generalizing a with
  | nil =>
    cases hr
    exact h
  | cons call calls ih =>
    obtain ⟨b, hb, hr⟩ := run_cons hr
    obtain ⟨hn, rfl⟩ := calls_step hb
    refine ih hr ?_
    have hk : k ≠ call.1 := by
      rintro rfl
      rw [hn] at h
      cases h
    exact (Function.update_of_ne hk ..).trans h

/-- The calls that took effect in a run are those of the run. -/
theorem performed_iff {a a' : Called κ α ι ρ} {calls : List (κ × ι)} (hr : (O.calls κ).run a calls = some a') (k : κ) :
    a'.performed k ≠ none ↔ a.performed k ≠ none ∨ k ∈ calls.map Prod.fst := by
  induction calls generalizing a with
  | nil =>
    cases hr
    simp
  | cons call calls ih =>
    obtain ⟨b, hb, hr⟩ := run_cons hr
    obtain ⟨hn, rfl⟩ := calls_step hb
    rw [ih hr, List.map_cons, List.mem_cons]
    by_cases hk : k = call.1
    · subst hk
      simp
    · simp only [Function.update_of_ne hk, hk, false_or]

end AtomicObject

/-! ## Linearizability -/

/-- The runs of a system tell its calls as taking effect one at a time, in an order that only grows. `holds` says what the system
holds of the object, `answered` what a call has been answered, `answer` what of an effect its caller is told, and `mayHaveEffect`
which calls can have taken effect. -/
structure Linearization (C : StepSystem σ ε) (O : AtomicObject α ι ρ) (holds : σ → α → Prop) (answered : σ → κ → Option γ)
    (answer : ι → ρ → γ) (mayHaveEffect : σ → κ → Prop) (order : σ → List ε → List (κ × ι)) : Prop where
  /-- What has taken effect stays, and stays in its place. -/
  grows : ∀ s es es', order s es <+: order s (es ++ es')
  /-- One effect after another, the object is what the system holds, and gives every call the answer it got. -/
  effects : ∀ s es t, C.start s → C.run s es = some t → ∃ a, (O.calls κ).run ⟨O.initial, fun _ => none⟩ (order s es) = some a ∧
    holds t a.object ∧ ∀ k c, answered t k = some c → ∃ x r, a.performed k = some (x, r) ∧ answer x r = c
  /-- No other call takes effect. -/
  only : ∀ s es t, C.start s → C.run s es = some t → ∀ k ∈ (order s es).map Prod.fst, mayHaveEffect t k
  /-- A call that was answered before another could take effect comes before it, however the run goes on. -/
  realTime : ∀ s es t es', C.start s → C.run s es = some t → ∀ k k' c, answered t k = some c → ¬mayHaveEffect t k' →
    ∃ later, order s (es ++ es') = order s es ++ later ∧ k ∈ (order s es).map Prod.fst ∧ k' ∉ (order s es).map Prod.fst

/-- A system that simulates the calls of an object is linearizable. -/
theorem Simulation.linearization {C : StepSystem σ ε} {O : AtomicObject α ι ρ} (R : Simulation C (O.calls κ))
    {holds : σ → α → Prop} {answered : σ → κ → Option γ} {answer : ι → ρ → γ} {mayHaveEffect : σ → κ → Prop}
    (hholds : ∀ s a, R.Rel s a → holds s a.object)
    (hanswered : ∀ s a, R.Rel s a → ∀ k c, answered s k = some c → ∃ x r, a.performed k = some (x, r) ∧ answer x r = c)
    (honly : ∀ s a, R.Rel s a → ∀ k, a.performed k ≠ none → mayHaveEffect s k) :
    Linearization C O holds answered answer mayHaveEffect (C.emitted R.events) := by
  have hrun : ∀ s es t, C.start s → C.run s es = some t →
      ∃ a, (O.calls κ).run ⟨O.initial, fun _ => none⟩ (C.emitted R.events s es) = some a ∧ R.Rel t a := by
    intro s es t hs hr
    obtain ⟨a, ha, hrel⟩ := R.start s hs
    have hinitial : a = ⟨O.initial, fun _ => none⟩ := ha
    subst hinitial
    exact R.run (.start hs) (.start ha) hrel hr
  constructor
  · intro s es es'
    exact emitted_prefix C R.events s es es'
  · intro s es t hs hr
    obtain ⟨a, ha, hrel⟩ := hrun s es t hs hr
    exact ⟨a, ha, hholds t a hrel, hanswered t a hrel⟩
  · intro s es t hs hr k hk
    obtain ⟨a, ha, hrel⟩ := hrun s es t hs hr
    exact honly t a hrel k ((AtomicObject.performed_iff ha k).mpr (.inr hk))
  · intro s es t es' hs hr k k' c hk hk'
    obtain ⟨later, hlater⟩ := emitted_prefix C R.events s es es'
    obtain ⟨a, ha, hrel⟩ := hrun s es t hs hr
    obtain ⟨x, r, hx, -⟩ := hanswered t a hrel k c hk
    have hmem := (AtomicObject.performed_iff ha k).mp (by rw [hx]; exact Option.some_ne_none _)
    refine ⟨later, hlater.symm, hmem.resolve_left fun h => h rfl, fun h => hk' ?_⟩
    exact honly t a hrel k' ((AtomicObject.performed_iff ha k').mpr (.inr h))

end StepSystem
