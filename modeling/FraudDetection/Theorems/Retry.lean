import FraudDetection.Theorems.Handling
import Mathlib.Algebra.Order.Monoid.Unbundled.WithTop

/-!
# Retrying for ever

A transient failure, or a failed publish of a dead letter, is retried however often it happens. Here: how long that is so. The
delay is computed where the exception is handled, so an exception there leaves the loop; it does after 1024 attempts.
-/

namespace FraudDetection

/-- `min(maximum, initial * 2^(n-1))`, exactly. -/
def exactDelay (n : ℕ) (initial maximum : Binary64) : WithTop ℚ :=
  Min.min maximum.toTop (initial.toTop.map fun q => q * 2 ^ (n - 1))

/-- The `n`th delay is between the half and the whole of the capped one, whatever the random number. -/
def DelayBounded (n : ℕ) (initial maximum : Binary64) : Prop :=
  ∀ random, ∃ delay, retryDelay n initial maximum random = some delay ∧
    exactDelay n initial maximum ≤ delay.toTop + delay.toTop ∧ delay.toTop ≤ exactDelay n initial maximum

/-- The capped delay is infinite, or a double whose half is not rounded down. -/
def DelayHalves (n : ℕ) (initial maximum : Binary64) : Prop :=
  ∀ q : ℚ, exactDelay n initial maximum = q → q < Binary64.bound ∧ ¬∃ m : ℕ, q = (4 * m + 1 : ℕ) * Binary64.least

/-- A call fails in a way that is retried for ever: processing with a transient failure, or a publish with any. -/
def FailsTransiently (h : Handling) : HandlingEvent → Prop
  | .processed (.error error) _ _ => h.phase = .processing ∧ classifyFailure error = .transient
  | .published (.error _) _ => ∃ letter, h.phase = .publishing letter
  | _ => False

/-- The loop is at a call. -/
def AtCall (h : Handling) : Prop := h.phase = .processing ∨ ∃ letter, h.phase = .publishing letter

/-- When the `n`th call fails like this, the loop waits for between the half and the whole of the capped delay, and then makes its
next call. -/
def GoesOn (settings : WorkerSettings) (message : Message) (n : ℕ) (h : Handling) : Prop :=
  ∀ event, FailsTransiently h event → ∃ delay h' h'', h.step settings message false event = some h' ∧
    h'.phase = .waiting delay ∧
    exactDelay n settings.retryInitialBackoff settings.retryMaxBackoff ≤ delay.toTop + delay.toTop ∧
    delay.toTop ≤ exactDelay n settings.retryInitialBackoff settings.retryMaxBackoff ∧
    h'.step settings message false .wake = some h'' ∧ AtCall h'' ∧ h''.attempt = n + 1

namespace RetryAux

open Binary64

/-! ## The random factor -/

theorem half_representable : Representable (1 / 2) := ⟨1, -1, by norm_num, by norm_num, by norm_num⟩

theorem one_representable : Representable 1 := ⟨1, 0, by norm_num, by norm_num, by norm_num⟩

theorem uniform_bounds (random : Random) : 1 / 2 ≤ uniform random ∧ uniform random ≤ 1 := by
  have h0 : (0 : ℚ) ≤ random / 2 ^ 53 := by positivity
  have h1 : (random : ℚ) / 2 ^ 53 ≤ 1 := by
    rw [div_le_one (by positivity)]
    exact_mod_cast random.isLt.le
  unfold uniform
  constructor
  · exact le_round (by linarith) half_representable (by linarith)
  · exact round_le (by linarith) one_representable (by linarith)

/-- The smallest random number gives the half. -/
theorem uniform_zero : uniform 0 = 1 / 2 := by
  unfold uniform
  norm_num
  exact round_of_representable (by norm_num) (by norm_num [half_representable] : Representable (1 / 2))

/-! ## One delay -/

/-- A double is scaled by a number that keeps it a double. -/
theorem ofRat_representable {q : ℚ} (hq : 0 < q) (h : Representable q) :
    ofRat q = if q < bound then .finite q else .infinity := by
  unfold ofRat
  rw [round_of_representable hq h]

/-- The capped delay in doubles is the exact one, unless that is finite and too large. -/
theorem capped_eq {initial maximum : Binary64} (hi : initial.IsPositive) (hm : maximum.IsPositive) (n : ℕ) :
    (∃ q : ℚ, 0 < q ∧ Representable q ∧ q < bound ∧ maximum.min (initial.scale (2 ^ (n - 1))) = .finite q ∧
        exactDelay n initial maximum = q) ∨
      maximum.min (initial.scale (2 ^ (n - 1))) = .infinity ∧
        (exactDelay n initial maximum = ⊤ ∨ ∃ q : ℚ, exactDelay n initial maximum = q ∧ bound ≤ q) := by
  unfold exactDelay
  cases initial with
  | infinity =>
    cases maximum with
    | infinity => exact Or.inr ⟨rfl, Or.inl rfl⟩
    | finite m => exact Or.inl ⟨m, hm.1, hm.2.2, hm.2.1, rfl, rfl⟩
  | finite i =>
    obtain ⟨hpos, -, hrep⟩ := hi
    have hpos' : 0 < i * 2 ^ (n - 1) := by positivity
    have hrep' := representable_mul_pow hrep (n - 1)
    have hscale : (finite i).scale (2 ^ (n - 1)) =
        if i * 2 ^ (n - 1) < bound then .finite (i * 2 ^ (n - 1)) else .infinity := ofRat_representable hpos' hrep'
    rw [hscale]
    cases maximum with
    | infinity =>
      split
      · rename_i hlt
        exact Or.inl ⟨_, hpos', hrep', hlt, rfl, rfl⟩
      · rename_i hge
        exact Or.inr ⟨rfl, Or.inr ⟨_, rfl, not_lt.mp hge⟩⟩
    | finite m =>
      obtain ⟨hmpos, hmlt, hmrep⟩ := hm
      simp only [toTop, WithTop.map_coe]
      split
      · rename_i hlt
        rcases lt_or_ge (i * 2 ^ (n - 1)) m with h | h
        · refine Or.inl ⟨_, hpos', hrep', hlt, by simp only [Binary64.min, if_pos h], ?_⟩
          exact min_eq_right (WithTop.coe_le_coe.mpr h.le)
        · refine Or.inl ⟨_, hmpos, hmrep, hmlt, by simp only [Binary64.min, if_neg (not_lt.mpr h)], ?_⟩
          exact min_eq_left (WithTop.coe_le_coe.mpr h)
      · rename_i hge
        refine Or.inl ⟨_, hmpos, hmrep, hmlt, rfl, ?_⟩
        exact min_eq_left (WithTop.coe_le_coe.mpr (hmlt.le.trans (not_lt.mp hge)))

/-- The delay from a capped one: at least its half, unless half of its last digit is rounded down. -/
theorem half_le_round {q u : ℚ} (hq : 0 < q) (hrep : Representable q) (hu : 1 / 2 ≤ u) (hu' : u ≤ 1)
    (hodd : ¬∃ m : ℕ, q = (4 * m + 1 : ℕ) * least) : q / 2 ≤ Binary64.round (q * u) := by
  have hle : q / 2 ≤ q * u := by nlinarith
  have hpos : 0 < q * u := by nlinarith
  rcases representable_half hrep with hhalf | ⟨m, hm, hqm⟩
  · exact le_round hpos hhalf hle
  · -- `q` is an odd multiple of the least double, one below a multiple of four
    have hmod : m % 2 = 1 := by
      by_contra hne
      refine hodd ⟨m / 2, ?_⟩
      rw [hqm]
      congr 2
      omega
    have hleast := least_pos
    have hsmall : q * u < (2 : ℚ) ^ (53 : ℕ) * least := by
      have hm' : ((2 * m + 1 : ℕ) : ℚ) < 2 ^ 53 := by exact_mod_cast hm
      calc q * u ≤ q * 1 := by gcongr
        _ = (2 * m + 1 : ℕ) * least := by rw [mul_one, hqm]
        _ < (2 : ℚ) ^ (53 : ℕ) * least := by gcongr
    have htie : ((m : ℤ) : ℚ) + 1 / 2 ≤ q * u / least := by
      rw [le_div_iff₀ hleast]
      refine le_trans (le_of_eq ?_) hle
      rw [hqm]
      push_cast
      ring
    have hup := le_nearestEven_of_odd (by omega : (m : ℤ) % 2 = 1) htie
    rw [round_small hpos hsmall]
    calc q / 2 ≤ ((m + 1 : ℤ) : ℚ) * least := by
          rw [hqm]
          push_cast
          linarith
      _ ≤ nearestEven (q * u / least) * least := by
          refine mul_le_mul_of_nonneg_right ?_ hleast.le
          exact_mod_cast hup

/-- The half of such a last digit is rounded down. -/
theorem round_half_lt {m : ℕ} (h : Representable ((4 * m + 1 : ℕ) * least)) :
    Binary64.round ((4 * m + 1 : ℕ) * least * (1 / 2)) < (4 * m + 1 : ℕ) * least / 2 := by
  have hleast := least_pos
  have hodd : (4 * m + 1 : ℕ) = 2 * (2 * m) + 1 := by omega
  have hm := odd_lt (hodd ▸ h)
  have hpos : (0 : ℚ) < (4 * m + 1 : ℕ) * least * (1 / 2) := by positivity
  have hsmall : ((4 * m + 1 : ℕ) : ℚ) * least * (1 / 2) < (2 : ℚ) ^ (53 : ℕ) * least := by
    have hm' : ((4 * m + 1 : ℕ) : ℚ) < 2 ^ 53 := by exact_mod_cast hodd ▸ hm
    nlinarith
  have htie : ((4 * m + 1 : ℕ) : ℚ) * least * (1 / 2) / least = ((2 * m : ℤ) : ℚ) + 1 / 2 := by
    field_simp
    push_cast
    ring
  rw [round_small hpos hsmall, htie, nearestEven_of_even (by omega)]
  push_cast
  linarith

end RetryAux

open RetryAux in
/-- The `n`th delay is between the half and the whole of the capped one exactly up to the 1024th, for a capped delay that doubles
can halve. -/
theorem RetryAux.delayBounded_iff (settings : WorkerSettings) (n : ℕ) :
    DelayBounded n settings.retryInitialBackoff settings.retryMaxBackoff ↔
      n ≤ 1024 ∧ DelayHalves n settings.retryInitialBackoff settings.retryMaxBackoff := by
  have hcapped := capped_eq settings.initial_ok settings.maximum_ok n
  unfold DelayBounded DelayHalves retryDelay
  by_cases hlate : 1024 ≤ n - 1
  · simp only [if_pos hlate, reduceCtorEq, false_and, exists_false]
    exact ⟨fun h => (h 0).elim, fun h => by omega⟩
  · simp only [if_neg hlate, Option.some.injEq, exists_eq_left']
    have hle : n ≤ 1024 := by omega
    rcases hcapped with ⟨q, hpos, hrep, hlt, hmin, hexact⟩ | ⟨hmin, hexact⟩
    · rw [hmin, hexact]
      have hround : ∀ u : ℚ, 1 / 2 ≤ u → u ≤ 1 → (Binary64.finite q).scale u = .finite (Binary64.round (q * u)) ∧
          Binary64.round (q * u) ≤ q := by
        intro u hu hu'
        have hup : Binary64.round (q * u) ≤ q := Binary64.round_le (by nlinarith) hrep (by nlinarith)
        exact ⟨if_pos (hup.trans_lt hlt), hup⟩
      constructor
      · intro h
        refine ⟨hle, fun q' hq' => ?_⟩
        cases WithTop.coe_injective hq'
        refine ⟨hlt, ?_⟩
        rintro ⟨m, rfl⟩
        have hhalf := (h 0).1
        rw [uniform_zero, (hround (1 / 2) le_rfl (by norm_num)).1] at hhalf
        rw [Binary64.toTop, ← WithTop.coe_add, WithTop.coe_le_coe] at hhalf
        have := round_half_lt hrep
        linarith
      · rintro ⟨-, h⟩ random
        obtain ⟨hu, hu'⟩ := uniform_bounds random
        obtain ⟨hs, hup⟩ := hround (uniform random) hu hu'
        have hhalf := half_le_round hpos hrep hu hu' (h q rfl).2
        rw [hs]
        refine ⟨?_, WithTop.coe_le_coe.mpr hup⟩
        rw [Binary64.toTop, ← WithTop.coe_add, WithTop.coe_le_coe]
        linarith
    · rw [hmin]
      rcases hexact with hexact | ⟨q, hexact, hq⟩
      · rw [hexact]
        exact ⟨fun _ => ⟨hle, fun q hq => absurd hq WithTop.top_ne_coe⟩, fun _ _ => ⟨le_top, le_top⟩⟩
      · rw [hexact]
        constructor
        · intro h
          exact absurd (h 0).2 (not_le.mpr (WithTop.coe_lt_top q))
        · rintro ⟨-, h⟩
          exact absurd (h q rfl).1 (not_lt.mpr hq)

namespace RetryAux

/-! ## The loop -/

/-- The passes begun are the calls made, and the one under way. -/
def Counted (h : Handling) : Prop :=
  match h.phase with
  | .processing => h.attempt = h.calls.length + 1
  | .publishing _ => h.attempt = h.calls.length + 1
  | .waiting _ => h.attempt = h.calls.length
  | _ => True

section

variable {settings : WorkerSettings} {message : Message} {stopping : Bool} {h : Handling}

theorem pass_counted (ha : h.attempt = h.calls.length) : Counted (h.pass stopping) := by
  unfold Handling.pass
  cases stopping with
  | true => trivial
  | false =>
    simp only [Bool.false_eq_true, if_false]
    cases h.pendingLetter with
    | none => exact congrArg (· + 1) ha
    | some letter => exact congrArg (· + 1) ha

theorem retry_counted (ha : h.attempt = h.calls.length) (random : Random) : Counted (h.retry settings random) := by
  unfold Handling.retry
  split
  · trivial
  · exact ha

theorem fail_counted (ha : h.attempt = h.calls.length) (error : PyException) (correlationId : Option String)
    (random : Random) : Counted (h.fail settings message stopping error correlationId random) := by
  unfold Handling.fail
  simp only
  split_ifs
  · exact pass_counted ha
  · exact retry_counted (h := { h with unexpectedFailures := h.unexpectedFailures + 1 }) ha random
  · exact pass_counted ha
  · exact retry_counted ha random

theorem step_counted {event : HandlingEvent} {h' : Handling} (hc : Counted h)
    (hs : h.step settings message stopping event = some h') : Counted h' := by
  have hlength : ∀ call, (h.record call).calls.length = h.calls.length + 1 := fun call => List.length_append
  unfold Counted at hc
  cases event with
  | processed result correlationId random =>
    cases hphase : h.phase with
    | processing =>
      simp only [hphase] at hc
      simp only [Handling.step, hphase] at hs
      cases result with
      | ok _ => cases hs; trivial
      | error error =>
        cases hs
        exact fail_counted (h := h.record _) (hc.trans (hlength _).symm) error correlationId random
    | _ => simp only [Handling.step, hphase, reduceCtorEq] at hs
  | published result random =>
    cases hphase : h.phase with
    | publishing letter =>
      simp only [hphase] at hc
      simp only [Handling.step, hphase] at hs
      cases result with
      | ok _ => cases hs; trivial
      | error error =>
        cases hs
        exact retry_counted (h := h.record _) (hc.trans (hlength _).symm) random
    | _ => simp only [Handling.step, hphase, reduceCtorEq] at hs
  | wake =>
    cases hphase : h.phase with
    | waiting delay =>
      simp only [hphase] at hc
      simp only [Handling.step, hphase] at hs
      cases hs
      exact pass_counted hc
    | _ => simp only [Handling.step, hphase, reduceCtorEq] at hs
  | cancel =>
    simp only [Handling.step] at hs
    split at hs
    · cases hs; trivial
    · cases hs; trivial
    · cases hs; trivial
    · cases hs

end

theorem counted_reachable {settings : WorkerSettings} {message : Message} {s : Bool × Handling}
    (h : (handling settings message).Reachable s) : Counted s.2 := by
  refine @StepSystem.Reachable.invariant _ _ (handling settings message) (fun s => Counted s.2) ?_ ?_ _ h
  · rintro _ ⟨stopping, rfl⟩
    exact pass_counted rfl
  · rintro ⟨stopping, h⟩ event s' hi hs
    cases event with
    | stop => cases hs; exact hi
    | handling event =>
      obtain ⟨h', hstep, rfl⟩ := Option.map_eq_some_iff.mp hs
      exact step_counted hi hstep

/-- A pass that is not stopping makes a call. -/
theorem pass_atCall (h : Handling) : AtCall (h.pass false) ∧ (h.pass false).attempt = h.attempt + 1 := by
  unfold Handling.pass AtCall
  simp only [Bool.false_eq_true, if_false, and_true]
  cases h.pendingLetter with
  | none => exact Or.inl rfl
  | some letter => exact Or.inr ⟨letter, rfl⟩

/-- The next delay, when there is one. -/
theorem retry_of_some {settings : WorkerSettings} {h : Handling} {random : Random} {delay : Binary64}
    (hd : retryDelay h.attempt settings.retryInitialBackoff settings.retryMaxBackoff random = some delay) :
    h.retry settings random = { h with phase := .waiting delay } := by
  unfold Handling.retry
  rw [hd]

/-- A transient failure of processing is retried. -/
theorem processed_step {settings : WorkerSettings} {message : Message} {h : Handling} (hphase : h.phase = .processing)
    {error : PyException} (he : classifyFailure error = .transient) (correlationId : Option String) (random : Random) :
    h.step settings message false (.processed (.error error) correlationId random) =
      some ((h.record (message.failed error)).retry settings random) := by
  simp only [Handling.step, hphase, Handling.fail, he, reduceCtorEq, false_and, or_self, if_false]
  rfl

/-- A failure to publish is retried. -/
theorem published_step {settings : WorkerSettings} {message : Message} {h : Handling} {letter : DeadLetter}
    (hphase : h.phase = .publishing letter) (error : PyException) (random : Random) :
    h.step settings message false (.published (.error error) random) =
      some ((h.record (.publish letter (.error error))).retry settings random) := by
  simp only [Handling.step, hphase]

/-- What a transient failure leaves to `retry`. -/
theorem failsTransiently_step (settings : WorkerSettings) (message : Message) {h : Handling} {event : HandlingEvent}
    (hf : FailsTransiently h event) : ∃ call random, h.step settings message false event =
      some ((h.record call).retry settings random) := by
  cases event with
  | processed result correlationId random =>
    cases result with
    | ok _ => exact hf.elim
    | error error => exact ⟨message.failed error, random, processed_step hf.1 hf.2 correlationId random⟩
  | published result random =>
    cases result with
    | ok _ => exact hf.elim
    | error error =>
      obtain ⟨letter, hphase⟩ := hf
      exact ⟨.publish letter (.error error), random, published_step hphase error random⟩
  | wake => exact hf.elim
  | cancel => exact hf.elim

/-- Such a failure can happen at every call, with every random number. -/
theorem exists_failsTransiently (settings : WorkerSettings) (message : Message) {h : Handling} (hc : AtCall h)
    (random : Random) : ∃ event call, FailsTransiently h event ∧
      h.step settings message false event = some ((h.record call).retry settings random) := by
  rcases hc with hphase | ⟨letter, hphase⟩
  · exact ⟨.processed (.error (.error .timeoutError)) none random, _, ⟨hphase, rfl⟩, processed_step hphase rfl none random⟩
  · exact ⟨.published (.error (.error .timeoutError)) random, _, ⟨letter, hphase⟩, published_step hphase _ random⟩

end RetryAux

open RetryAux in
/-- The `n`th call of a message that is not stopping may fail transiently and the loop go on to the next one, exactly when `n` is at
most 1024 and doubles can halve the capped delay. -/
theorem retry_goesOn_iff {settings : WorkerSettings} {message : Message} {s : Bool × Handling}
    (h : (handling settings message).Reachable s) (hc : AtCall s.2) {n : ℕ} (hn : s.2.calls.length + 1 = n) :
    GoesOn settings message n s.2 ↔
      n ≤ 1024 ∧ DelayHalves n settings.retryInitialBackoff settings.retryMaxBackoff := by
  have hattempt : s.2.attempt = n := by
    have hcount := counted_reachable h
    unfold Counted at hcount
    rcases hc with hphase | ⟨letter, hphase⟩
    · rw [hphase] at hcount
      exact hcount.trans hn
    · rw [hphase] at hcount
      exact hcount.trans hn
  rw [← delayBounded_iff settings n]
  constructor
  · intro hgo random
    obtain ⟨event, call, hf, hs⟩ := exists_failsTransiently settings message hc random
    obtain ⟨delay, h', h'', hs', hphase, hlo, hhi, -⟩ := hgo event hf
    rw [hs] at hs'
    cases hs'
    unfold Handling.retry at hphase
    split at hphase
    · cases hphase
    · rename_i d hd
      cases hphase
      refine ⟨delay, ?_, hlo, hhi⟩
      rw [← hattempt]
      exact hd
  · intro hb event hf
    obtain ⟨call, random, hs⟩ := failsTransiently_step settings message hf
    obtain ⟨delay, hd, hlo, hhi⟩ := hb random
    rw [← hattempt] at hd
    have hretry : (s.2.record call).retry settings random = { s.2.record call with phase := .waiting delay } :=
      retry_of_some hd
    refine ⟨delay, _, _, hs, by rw [hretry], hlo, hhi, by rw [hretry]; rfl, ?_⟩
    obtain ⟨hcall, hpass⟩ := pass_atCall { s.2.record call with phase := .waiting delay }
    exact ⟨hcall, hpass.trans (congrArg (· + 1) hattempt)⟩

namespace RetryExample

open HandlingExample

/-- Processing ends in a `TimeoutError`. -/
def failure : PyException := .error .timeoutError

/-- However many timeouts there have been, up to 1024, the next call is made. -/
theorem timeouts (n : ℕ) (hn : n ≤ 1024) : ∃ s, (handling settings message).Reachable s ∧ s.1 = false ∧
    s.2.phase = .processing ∧ s.2.pendingLetter = none ∧ s.2.attempt = n + 1 ∧
    s.2.calls = List.replicate n (message.failed failure) := by
  induction n with
  | zero => exact ⟨(false, .enter false), .start ⟨false, rfl⟩, rfl, rfl, rfl, rfl, rfl⟩
  | succ n ih =>
    obtain ⟨⟨stopping, h⟩, hr, hstop, hphase, hletter, hattempt, hcalls⟩ := ih (by omega)
    simp only at hstop hphase hletter hattempt hcalls
    subst hstop
    have hdelay : ∃ delay, retryDelay h.attempt settings.retryInitialBackoff settings.retryMaxBackoff 0 = some delay := by
      unfold retryDelay
      rw [if_neg (by omega)]
      exact ⟨_, rfl⟩
    obtain ⟨delay, hd⟩ := hdelay
    have hfail : (handling settings message).step (false, h) (.handling (.processed (.error failure) none 0)) =
        some (false, { h.record (message.failed failure) with phase := .waiting delay }) := by
      have hstep := @RetryAux.processed_step settings message h hphase failure rfl none 0
      have hretry := @RetryAux.retry_of_some settings (h.record (message.failed failure)) 0 delay hd
      simp only [handling, hstep, Option.map_some, hretry]
    have hnext : ({ h.record (message.failed failure) with phase := .waiting delay } : Handling).pass false =
        { h.record (message.failed failure) with attempt := h.attempt + 1, phase := .processing } := by
      simp only [Handling.pass, Handling.record, hletter, Bool.false_eq_true, if_false]
    refine ⟨_, .step (.step hr trivial hfail) trivial (e := .handling .wake) rfl, rfl, ?_⟩
    simp only
    rw [hnext]
    refine ⟨rfl, hletter, congrArg (· + 1) hattempt, ?_⟩
    rw [List.replicate_succ', ← hcalls]
    rfl

end RetryExample

open RetryExample HandlingExample in
/-- After one timeout. -/
theorem retry_goesOn_iff_second : ∃ s, (handling settings message).Reachable s ∧
    (GoesOn settings message 2 s.2 ↔
      2 ≤ 1024 ∧ DelayHalves 2 settings.retryInitialBackoff settings.retryMaxBackoff) := by
  obtain ⟨s, hr, -, hphase, -, -, hcalls⟩ := timeouts 1 (by decide)
  exact ⟨s, hr, retry_goesOn_iff hr (Or.inl hphase) (by rw [hcalls]; rfl)⟩

open RetryExample HandlingExample in
/-- The 1025th timeout in a row leaves `_handle` as an `OverflowError`, though nothing is stopping. -/
theorem retry_goesOn_false : ∃ s, (handling settings message).Reachable s ∧ s.1 = false ∧
    s.2.phase = .raised .overflowError ∧ s.2.calls = List.replicate 1025 (message.failed failure) := by
  obtain ⟨⟨stopping, h⟩, hr, hstop, hphase, -, hattempt, hcalls⟩ := timeouts 1024 le_rfl
  simp only at hstop hphase hattempt hcalls
  subst hstop
  have hnone : retryDelay (h.record (message.failed failure)).attempt settings.retryInitialBackoff settings.retryMaxBackoff 0 =
      none := by
    unfold retryDelay
    rw [show (h.record (message.failed failure)).attempt = 1025 from hattempt]
    rfl
  have hfail : (handling settings message).step (false, h) (.handling (.processed (.error failure) none 0)) =
      some (false, { h.record (message.failed failure) with phase := .raised .overflowError }) := by
    have hstep := @RetryAux.processed_step settings message h hphase failure rfl none 0
    simp only [handling, hstep, Option.map_some, Handling.retry]
    rw [hnone]
  refine ⟨_, .step hr trivial hfail, rfl, rfl, ?_⟩
  rw [List.replicate_succ' (n := 1024), ← hcalls]
  rfl

end FraudDetection
