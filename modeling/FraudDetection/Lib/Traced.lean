import FraudDetection.Lib.Except
import Mathlib.Data.List.Forall2

/-!
# Computations that fail and keep a record

A computation that may fail, with what it recorded until it ended. Two rules carry properties through a whole computation from its
parts: when a failure is exactly a bad record (`FailsExactly`), and when one computation follows another as long as what it records
is good (`Simulates`).
-/

namespace Except

/-- The same error, or two related values. -/
def Related {ε α β : Type} (R : α → β → Prop) : Except ε α → Except ε β → Prop
  | .ok a, .ok b => R a b
  | .error e, .error e' => e = e'
  | _, _ => False

end Except

/-- The end of a computation, and what it recorded. -/
structure Traced (ε ρ α : Type) where
  value : Except ε α
  records : List ρ

namespace Traced

variable {ε ρ α β : Type}

/-- A computation that records nothing. -/
def lift (r : Except ε α) : Traced ε ρ α := ⟨r, []⟩

/-- A computation that records one thing. -/
def record (x : ρ) (r : Except ε α) : Traced ε ρ α := ⟨r, [x]⟩

instance : Monad (Traced ε ρ) where
  pure a := ⟨.ok a, []⟩
  bind t f :=
    match t.value with
    | .ok a => ⟨(f a).value, t.records ++ (f a).records⟩
    | .error e => ⟨.error e, t.records⟩

@[simp] theorem value_lift (r : Except ε α) : (lift r : Traced ε ρ α).value = r := rfl

@[simp] theorem value_record (x : ρ) (r : Except ε α) : (record x r).value = r := rfl

@[simp] theorem value_pure (a : α) : (pure a : Traced ε ρ α).value = .ok a := rfl

/-- The end of a computation in two parts: the records play no part in it. -/
@[simp] theorem value_bind (t : Traced ε ρ α) (f : α → Traced ε ρ β) :
    (t >>= f).value = t.value >>= fun a => (f a).value := by
  obtain ⟨value, records⟩ := t
  cases value <;> rfl

theorem records_bind_ok {t : Traced ε ρ α} {a : α} (h : t.value = .ok a) (f : α → Traced ε ρ β) :
    (t >>= f).records = t.records ++ (f a).records := by
  obtain ⟨value, records⟩ := t
  cases h
  rfl

theorem records_bind_error {t : Traced ε ρ α} {e : ε} (h : t.value = .error e) (f : α → Traced ε ρ β) :
    (t >>= f).records = t.records := by
  obtain ⟨value, records⟩ := t
  cases h
  rfl

/-! ## When it fails -/

section

variable (signal : ε → Prop) (bad : ρ → Prop)

/-- The computation ends in a signal exactly when it recorded something bad. -/
def FailsExactly (t : Traced ε ρ α) : Prop := (∃ e, t.value = .error e ∧ signal e) ↔ ∃ x ∈ t.records, bad x

variable {signal bad}

theorem FailsExactly.pure (a : α) : FailsExactly signal bad (pure a : Traced ε ρ α) := by
  constructor
  · rintro ⟨_, he, -⟩
    cases he
  · rintro ⟨_, hx, -⟩
    cases hx

/-- A computation that records nothing must not signal. -/
theorem FailsExactly.lift {r : Except ε α} (h : ∀ e, r = .error e → ¬signal e) :
    FailsExactly signal bad (Traced.lift r) := by
  constructor
  · rintro ⟨e, he, hs⟩
    exact absurd hs (h e he)
  · rintro ⟨_, hx, -⟩
    cases hx

theorem FailsExactly.record {x : ρ} {r : Except ε α} (h : (∃ e, r = .error e ∧ signal e) ↔ bad x) :
    FailsExactly signal bad (Traced.record x r) := by
  unfold FailsExactly
  rw [value_record, h]
  simp [Traced.record]

theorem FailsExactly.bind {t : Traced ε ρ α} {f : α → Traced ε ρ β} (ht : FailsExactly signal bad t)
    (hf : ∀ a, FailsExactly signal bad (f a)) : FailsExactly signal bad (t >>= f) := by
  unfold FailsExactly at ht hf ⊢
  cases hv : t.value with
  | error e =>
    rw [records_bind_error hv, value_bind, hv, Except.error_bind, ← ht, hv]
    simp
  | ok a =>
    have hnone : ¬∃ x ∈ t.records, bad x := by
      rw [← ht, hv]
      simp
    rw [records_bind_ok hv, value_bind, hv, Except.ok_bind, hf a]
    constructor
    · rintro ⟨x, hx, hb⟩
      exact ⟨x, List.mem_append_right _ hx, hb⟩
    · rintro ⟨x, hx, hb⟩
      rcases List.mem_append.mp hx with hx | hx
      · exact absurd ⟨x, hx, hb⟩ hnone
      · exact ⟨x, hx, hb⟩

end

/-! ## When one follows another -/

section

variable (good : ρ → Prop) (Q : ρ → ρ → Prop)

/-- As long as what the first records is good, the second records alike and ends alike. -/
def Simulates (R : α → β → Prop) (t : Traced ε ρ α) (t' : Traced ε ρ β) : Prop :=
  (∀ x ∈ t.records, good x) → t.value.Related R t'.value ∧ List.Forall₂ Q t.records t'.records

variable {good Q} {α' β' : Type} {R : α → α' → Prop} {S : β → β' → Prop}

theorem Simulates.pure {a : α} {a' : α'} (h : R a a') :
    Simulates good Q R (pure a : Traced ε ρ α) (pure a' : Traced ε ρ α') := fun _ => ⟨h, .nil⟩

theorem Simulates.lift {r : Except ε α} {r' : Except ε α'} (h : r.Related R r') :
    Simulates good Q R (Traced.lift r) (Traced.lift r') := fun _ => ⟨h, .nil⟩

theorem Simulates.record {x y : ρ} {r : Except ε α} {r' : Except ε α'} (hq : Q x y) (h : good x → r.Related R r') :
    Simulates good Q R (Traced.record x r) (Traced.record y r') :=
  fun hg => ⟨h (hg x List.mem_cons_self), .cons hq .nil⟩

theorem Simulates.bind {t : Traced ε ρ α} {t' : Traced ε ρ α'} {f : α → Traced ε ρ β} {f' : α' → Traced ε ρ β'}
    (ht : Simulates good Q R t t') (hf : ∀ a a', R a a' → Simulates good Q S (f a) (f' a')) :
    Simulates good Q S (t >>= f) (t' >>= f') := by
  intro hg
  cases hv : t.value with
  | error e =>
    rw [records_bind_error hv] at hg ⊢
    obtain ⟨hr, hq⟩ := ht hg
    cases hv' : t'.value with
    | ok a' => rw [hv, hv'] at hr; exact hr.elim
    | error e' =>
      rw [hv, hv'] at hr
      rw [records_bind_error hv', value_bind, value_bind, hv, hv']
      exact ⟨hr, hq⟩
  | ok a =>
    rw [records_bind_ok hv] at hg ⊢
    obtain ⟨hr, hq⟩ := ht fun x hx => hg x (List.mem_append_left _ hx)
    cases hv' : t'.value with
    | error e' => rw [hv, hv'] at hr; exact hr.elim
    | ok a' =>
      rw [hv, hv'] at hr
      obtain ⟨hr', hq'⟩ := hf a a' hr fun x hx => hg x (List.mem_append_right _ hx)
      rw [records_bind_ok hv', value_bind, value_bind, hv, hv']
      exact ⟨hr', List.rel_append hq hq'⟩

end

end Traced
