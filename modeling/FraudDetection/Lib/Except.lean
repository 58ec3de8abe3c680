/-!
# Computations that may fail

How a bind of `Except` runs, so that a proof takes a computation apart step by step without unfolding the monad, and with what it
can fail.
-/

namespace Except

variable {ε α β : Type _}

@[simp] theorem ok_bind (a : α) (f : α → Except ε β) : (Except.ok a >>= f) = f a := rfl

@[simp] theorem error_bind (e : ε) (f : α → Except ε β) : (Except.error e >>= f) = .error e := rfl

@[simp] theorem pure_def (a : α) : (pure a : Except ε α) = .ok a := rfl

/-- A bind succeeds when both of its parts do. -/
theorem bind_eq_ok {x : Except ε α} {f : α → Except ε β} {b : β} :
    (x >>= f) = .ok b ↔ ∃ a, x = .ok a ∧ f a = .ok b := by
  cases x with
  | error e => simp
  | ok a => simp

/-- A bind fails when one of its parts does. -/
theorem bind_eq_error {x : Except ε α} {f : α → Except ε β} {e : ε} :
    (x >>= f) = .error e ↔ x = .error e ∨ ∃ a, x = .ok a ∧ f a = .error e := by
  cases x with
  | error e' => simp
  | ok a => simp

/-- What a mapped computation gives is the image of what the computation gave. -/
theorem map_eq_ok {f : α → β} {x : Except ε α} {b : β} : x.map f = .ok b ↔ ∃ a, x = .ok a ∧ f a = b := by
  cases x with
  | error e => simp [Except.map]
  | ok a => simp [Except.map]

/-- A computation fails only with some errors. -/
def FailsOnly (p : ε → Prop) (x : Except ε α) : Prop := ∀ e, x = .error e → p e

variable {p : ε → Prop}

@[simp] theorem failsOnly_ok (a : α) : (Except.ok a : Except ε α).FailsOnly p := nofun

@[simp] theorem failsOnly_error (e : ε) : (Except.error e : Except ε α).FailsOnly p ↔ p e :=
  ⟨fun h => h e rfl, fun h e' he => by cases he; exact h⟩

/-- A bind fails only with some errors when both of its parts do. -/
theorem failsOnly_bind {x : Except ε α} {f : α → Except ε β} :
    (x >>= f).FailsOnly p ↔ x.FailsOnly p ∧ ∀ a, x = .ok a → (f a).FailsOnly p := by
  cases x with
  | error e => simp
  | ok a => simp

end Except
