import FraudDetection.Security
import Mathlib.Tactic.Linarith

/-!
# Refreshes of the key set are throttled

Only the thread that has the lock fetches, and it does so after the clock has passed the end of the last refresh that succeeded by
the interval. A refresh that fails leaves no time behind, so the next thread that misses a key fetches again at once.
-/

namespace FraudDetection

variable {Key : Type} {jwt : PyJwt Key} {minInterval : ℚ}

/-- `fetch` is called at most once in every interval. -/
def Throttled (minInterval : ℚ) (s : VerifierState Key) : Prop :=
  ∀ a, s.fetches.countP (fun t => decide (a ≤ t ∧ t < a + minInterval)) ≤ 1

/-- A thread that misses its key under the lock, with a refresh due by the last one that succeeded, does so no sooner than the
interval after every call of `fetch` that failed. -/
def RetriesLater (minInterval : ℚ) (s : VerifierState Key) : TokenEvent → Prop
  | .check c => ∀ token kid, s.threads c = .locked token kid → s.cache.keys kid = none → s.cache.Due minInterval s.now →
      ∀ t ∈ s.failed, t + minInterval ≤ s.now
  | _ => True

/-- Whether a thread that is there has the lock. -/
def TokenPhase.Holds : TokenPhase Key → Prop
  | .locked _ _ | .refreshing _ _ | .fetching _ _ _ => True
  | _ => False

namespace KeyRefreshAux

/-! ## What a step does -/

/-- Every step is one of these. -/
theorem step_cases {s s' : VerifierState Key} {e : TokenEvent} (h : tokenStep jwt minInterval s e = some s') :
    (∃ duration, e = .tick duration ∧ 0 ≤ duration ∧ s' = { s with now := s.now + duration }) ∨
    (∃ c token, e = .verify c token ∧ s.threads c = .absent ∧
      s' = s.goTo c (TokenPhase.ofKid s.cache.keys token (tokenKid jwt token))) ∨
    (∃ c token kid, e = .acquire c ∧ s.threads c = .waiting token kid ∧ s.lock = none ∧
      s' = { s.goTo c (.locked token kid) with lock := some c }) ∨
    (∃ c token kid, e = .check c ∧ s.threads c = .locked token kid ∧ s' = s.check minInterval c token kid) ∨
    (∃ c token kid, e = .fetch c ∧ s.threads c = .refreshing token kid ∧
      s' = { s.goTo c (.fetching token kid s.now) with fetches := s.fetches ++ [s.now] }) ∨
    (∃ c reply token kid calledAt, e = .respond c reply ∧ s.threads c = .fetching token kid calledAt ∧
      s' = s.respond jwt c token kid calledAt reply) ∨
    ∃ c token key, e = .decode c ∧ s.threads c = .verifying token key ∧ s' = s.goTo c (.ended (jwt.decode token key)) := by
  cases e with
  | tick duration =>
    simp only [tokenStep] at h
    split_ifs at h with hd
    exact .inl ⟨duration, rfl, hd, (Option.some.inj h).symm⟩
  | verify c token =>
    simp only [tokenStep] at h
    split at h
    · exact .inr (.inl ⟨c, token, rfl, ‹_›, (Option.some.inj h).symm⟩)
    · nomatch h
  | acquire c =>
    simp only [tokenStep] at h
    split at h
    · exact .inr (.inr (.inl ⟨c, _, _, rfl, ‹_›, ‹_›, (Option.some.inj h).symm⟩))
    · nomatch h
  | check c =>
    simp only [tokenStep] at h
    split at h
    · exact .inr (.inr (.inr (.inl ⟨c, _, _, rfl, ‹_›, (Option.some.inj h).symm⟩)))
    · nomatch h
  | fetch c =>
    simp only [tokenStep] at h
    split at h
    · exact .inr (.inr (.inr (.inr (.inl ⟨c, _, _, rfl, ‹_›, (Option.some.inj h).symm⟩))))
    · nomatch h
  | respond c reply =>
    simp only [tokenStep] at h
    split at h
    · exact .inr (.inr (.inr (.inr (.inr (.inl ⟨c, reply, _, _, _, rfl, ‹_›, (Option.some.inj h).symm⟩)))))
    · nomatch h
  | decode c =>
    simp only [tokenStep] at h
    split at h
    · exact .inr (.inr (.inr (.inr (.inr (.inr ⟨c, _, _, rfl, ‹_›, (Option.some.inj h).symm⟩)))))
    · nomatch h

/-- A thread that looks for its key under the lock finds it, or a refresh is due, or it goes on without one. -/
theorem check_cases (minInterval : ℚ) (s : VerifierState Key) (c : ℕ) (token kid : String) :
    (∃ key, s.cache.keys kid = some key ∧ s.check minInterval c token kid = s.release c (.verifying token key)) ∨
    (s.cache.keys kid = none ∧ s.cache.Due minInterval s.now ∧
      s.check minInterval c token kid = s.goTo c (.refreshing token kid)) ∨
    (s.cache.keys kid = none ∧ ¬s.cache.Due minInterval s.now ∧
      s.check minInterval c token kid = s.release c (.ended (.error unknownKey))) := by
  unfold VerifierState.check
  cases hkey : s.cache.keys kid with
  | some key => exact .inl ⟨key, rfl, rfl⟩
  | none =>
    by_cases hdue : s.cache.Due minInterval s.now
    · exact .inr (.inl ⟨rfl, hdue, if_pos hdue⟩)
    · exact .inr (.inr ⟨rfl, hdue, if_neg hdue⟩)

/-- A refresh that succeeds ends now. -/
theorem refresh_lastFetch {reply : JwksReply} {now : ℚ} {cache : KeyCache Key} (h : refresh jwt reply now = .ok cache) :
    cache.lastFetch = some now := by
  unfold refresh at h
  simp only [bind, Except.bind] at h
  split at h
  · nomatch h
  split at h
  · nomatch h
  split at h
  · nomatch h
  cases h
  rfl

theorem holds_ofKid (keys : String → Option Key) (token : String) (kid : Except AuthException String) :
    ¬(TokenPhase.ofKid keys token kid).Holds := by
  unfold TokenPhase.ofKid
  split
  · exact id
  · split <;> exact id

theorem holds_ofKey (token : String) (key : Option Key) : ¬(TokenPhase.ofKey token key).Holds := by
  cases key <;> exact id

/-! ## The invariant -/

/-- What holds of the lock, and of the calls of `fetch`. -/
structure RefreshInv (minInterval : ℚ) (s : VerifierState Key) : Prop where
  mutex : ∀ c, (s.threads c).Holds ↔ s.lock = some c
  past : ∀ t ∈ s.fetches, t ≤ s.now
  lastPast : ∀ t ∈ s.cache.lastFetch, t ≤ s.now
  /-- A call failed, or a refresh that succeeded ended after it, or it goes on. -/
  accounted : ∀ t ∈ s.fetches, t ∈ s.failed ∨ (∃ last ∈ s.cache.lastFetch, t ≤ last) ∨
    ∃ c token kid, s.threads c = .fetching token kid t
  refreshing : ∀ c token kid, s.threads c = .refreshing token kid → ∀ t ∈ s.fetches, t + minInterval ≤ s.now
  apart : s.fetches.Pairwise fun a b => a + minInterval ≤ b

/-- One thread has the lock. -/
theorem eq_of_holds {s : VerifierState Key} (h : RefreshInv minInterval s) {c c' : ℕ} (hc : (s.threads c).Holds)
    (hc' : (s.threads c').Holds) : c' = c :=
  Option.some.inj (((h.mutex c').mp hc').symm.trans ((h.mutex c).mp hc))

/-- While a thread has the lock and has not called `fetch`, no call goes on. -/
theorem accounted_of_holds {s : VerifierState Key} (h : RefreshInv minInterval s) {c : ℕ} (hc : (s.threads c).Holds)
    (hnot : ∀ token kid t, s.threads c ≠ .fetching token kid t) :
    ∀ t ∈ s.fetches, t ∈ s.failed ∨ ∃ last ∈ s.cache.lastFetch, t ≤ last := by
  intro t ht
  rcases h.accounted t ht with hf | hl | ⟨c', token, kid, hc'⟩
  · exact .inl hf
  · exact .inr hl
  · have heq : c' = c := eq_of_holds h hc (by rw [hc']; trivial)
    exact absurd (heq ▸ hc') (hnot token kid t)

/-- The thread that has the lock keeps it. -/
theorem mutex_goTo {s : VerifierState Key} (h : RefreshInv minInterval s) {c : ℕ} {phase : TokenPhase Key}
    (hc : (s.threads c).Holds) (hphase : phase.Holds) (c' : ℕ) : ((s.goTo c phase).threads c').Holds ↔ s.lock = some c' := by
  by_cases heq : c' = c
  · subst heq
    simp only [VerifierState.goTo, Function.update_self]
    exact iff_of_true hphase ((h.mutex c').mp hc)
  · simp only [VerifierState.goTo, Function.update_of_ne heq]
    exact h.mutex c'

/-- A thread that goes on without the lock keeps the invariant. -/
theorem inv_outside {s : VerifierState Key} (h : RefreshInv minInterval s) {c : ℕ} {phase : TokenPhase Key}
    (hc : ¬(s.threads c).Holds) (hphase : ¬phase.Holds) : RefreshInv minInterval (s.goTo c phase) := by
  have hother : ∀ {c' : ℕ} {p : TokenPhase Key}, p.Holds → (s.goTo c phase).threads c' = p → s.threads c' = p := by
    intro c' p hp hc'
    by_cases heq : c' = c
    · simp only [VerifierState.goTo, heq, Function.update_self] at hc'
      exact absurd (hc' ▸ hp) hphase
    · simpa [VerifierState.goTo, Function.update_of_ne heq] using hc'
  refine ⟨fun c' => ?_, h.past, h.lastPast, fun t ht => ?_, fun c' token kid hc' => ?_, h.apart⟩
  · by_cases heq : c' = c
    · simp only [VerifierState.goTo, heq, Function.update_self]
      exact iff_of_false hphase fun hlock => hc ((h.mutex c).mpr hlock)
    · simp only [VerifierState.goTo, Function.update_of_ne heq]
      exact h.mutex c'
  · rcases h.accounted t ht with hf | hl | ⟨c', token, kid, hc'⟩
    · exact .inl hf
    · exact .inr (.inl hl)
    · have hne : c' ≠ c := fun heq => hc (heq ▸ hc' ▸ trivial)
      exact .inr (.inr ⟨c', token, kid, by simpa [VerifierState.goTo, Function.update_of_ne hne] using hc'⟩)
  · exact h.refreshing c' token kid (hother trivial hc')

/-- The thread that has the lock releases it, when every call of `fetch` has ended. -/
theorem inv_release {s : VerifierState Key} (h : RefreshInv minInterval s) {c : ℕ} {phase : TokenPhase Key}
    {cache : KeyCache Key} {failed : List ℚ} (hc : (s.threads c).Holds) (hphase : ¬phase.Holds)
    (hlast : ∀ t ∈ cache.lastFetch, t ≤ s.now) (hended : ∀ t ∈ s.fetches, t ∈ failed ∨ ∃ last ∈ cache.lastFetch, t ≤ last) :
    RefreshInv minInterval { s.release c phase with cache, failed } := by
  have hnone : ∀ c', ¬((s.release c phase).threads c').Holds := by
    intro c' hc'
    by_cases heq : c' = c
    · simp only [VerifierState.release, heq, Function.update_self] at hc'
      exact hphase hc'
    · simp only [VerifierState.release, Function.update_of_ne heq] at hc'
      exact heq (eq_of_holds h hc hc')
  refine ⟨fun c' => iff_of_false (hnone c') nofun, h.past, hlast, fun t ht => ?_, fun c' token kid hc' => ?_, h.apart⟩
  · exact (hended t ht).imp_right .inl
  · exact absurd (show ((s.release c phase).threads c').Holds by rw [hc']; trivial) (hnone c')

/-- A thread takes the lock. -/
theorem inv_acquire {s : VerifierState Key} (h : RefreshInv minInterval s) {c : ℕ} {token kid : String} (hlock : s.lock = none) :
    RefreshInv minInterval { s.goTo c (.locked token kid) with lock := some c } := by
  have hfree : ∀ c', ¬(s.threads c').Holds := by
    intro c' hc'
    have := (h.mutex c').mp hc'
    rw [hlock] at this
    nomatch this
  refine ⟨fun c' => ?_, h.past, h.lastPast, fun t ht => ?_, fun c' token' kid' hc' => ?_, h.apart⟩
  · by_cases heq : c' = c
    · subst heq
      simp only [VerifierState.goTo, Function.update_self]
      exact iff_of_true trivial trivial
    · simp only [VerifierState.goTo, Function.update_of_ne heq]
      exact iff_of_false (hfree c') fun hlock => heq (Option.some.inj hlock).symm
  · rcases h.accounted t ht with hf | hl | ⟨c', token', kid', hc'⟩
    · exact .inl hf
    · exact .inr (.inl hl)
    · exact absurd (show (s.threads c').Holds by rw [hc']; trivial) (hfree c')
  · by_cases heq : c' = c
    · simp [VerifierState.goTo, heq] at hc'
    · simp only [VerifierState.goTo, Function.update_of_ne heq] at hc'
      exact absurd (show (s.threads c').Holds by rw [hc']; trivial) (hfree c')

/-- The thread that has the lock finds a refresh due, the interval after every call that failed. -/
theorem inv_due {s : VerifierState Key} (h : RefreshInv minInterval s) {c : ℕ} {token kid : String}
    (hc : s.threads c = .locked token kid) (hdue : s.cache.Due minInterval s.now)
    (hlater : ∀ t ∈ s.failed, t + minInterval ≤ s.now) : RefreshInv minInterval (s.goTo c (.refreshing token kid)) := by
  have hholds : (s.threads c).Holds := by rw [hc]; trivial
  have hended := accounted_of_holds h hholds (by rw [hc]; exact nofun)
  have hpassed : ∀ t ∈ s.fetches, t + minInterval ≤ s.now := by
    intro t ht
    rcases hended t ht with hf | ⟨last, hlast, hle⟩
    · exact hlater t hf
    · have := hdue last hlast
      linarith
  exact ⟨mutex_goTo h hholds trivial, h.past, h.lastPast, fun t ht => (hended t ht).imp_right .inl, fun _ _ _ _ => hpassed, h.apart⟩

/-- The thread that has found a refresh due calls `fetch`. -/
theorem inv_fetch {s : VerifierState Key} (h : RefreshInv minInterval s) {c : ℕ} {token kid : String}
    (hc : s.threads c = .refreshing token kid) :
    RefreshInv minInterval { s.goTo c (.fetching token kid s.now) with fetches := s.fetches ++ [s.now] } := by
  have hholds : (s.threads c).Holds := by rw [hc]; trivial
  have hended := accounted_of_holds h hholds (by rw [hc]; exact nofun)
  refine ⟨mutex_goTo h hholds trivial, fun t ht => ?_, h.lastPast, fun t ht => ?_, fun c' token' kid' hc' => ?_, ?_⟩
  · rcases List.mem_append.mp ht with ht | ht
    · exact h.past t ht
    · exact (List.mem_singleton.mp ht).le
  · rcases List.mem_append.mp ht with ht | ht
    · exact (hended t ht).imp_right .inl
    · rw [List.mem_singleton.mp ht]
      exact .inr (.inr ⟨c, token, kid, by simp [VerifierState.goTo]⟩)
  · by_cases heq : c' = c
    · simp [VerifierState.goTo, heq] at hc'
    · simp only [VerifierState.goTo, Function.update_of_ne heq] at hc'
      exact absurd (eq_of_holds h hholds (by rw [hc']; trivial)) heq
  · refine List.pairwise_append.mpr ⟨h.apart, List.pairwise_singleton _ _, fun t ht t' ht' => ?_⟩
    rw [List.mem_singleton.mp ht']
    exact h.refreshing c token kid hc t ht

/-- A call of `fetch` ends. -/
theorem inv_respond {s : VerifierState Key} (h : RefreshInv minInterval s) {c : ℕ} {token kid : String} {calledAt : ℚ}
    (hc : s.threads c = .fetching token kid calledAt) (reply : JwksReply) :
    RefreshInv minInterval (s.respond jwt c token kid calledAt reply) := by
  have hholds : (s.threads c).Holds := by rw [hc]; trivial
  unfold VerifierState.respond
  split
  · rename_i cache hcache
    have hlast := refresh_lastFetch hcache
    refine inv_release h hholds (holds_ofKey token _) (fun t ht => ?_) fun t ht => ?_
    · rw [hlast] at ht
      exact (Option.mem_some_iff.mp ht).ge
    · exact .inr ⟨s.now, hlast, h.past t ht⟩
  · refine inv_release h hholds id h.lastPast fun t ht => ?_
    rcases h.accounted t ht with hf | hl | ⟨c', token', kid', hc'⟩
    · exact .inl (List.mem_append_left _ hf)
    · exact .inr hl
    · obtain rfl : c' = c := eq_of_holds h hholds (by rw [hc']; trivial)
      rw [hc] at hc'
      cases hc'
      exact .inl (List.mem_append_right _ (List.mem_singleton_self _))

/-- A step that meets the condition keeps the invariant. -/
theorem inv_step {s s' : VerifierState Key} {e : TokenEvent} (h : RefreshInv minInterval s) (hg : RetriesLater minInterval s e)
    (hs : tokenStep jwt minInterval s e = some s') : RefreshInv minInterval s' := by
  rcases step_cases hs with ⟨duration, rfl, hd, rfl⟩ | ⟨c, token, rfl, hc, rfl⟩ | ⟨c, token, kid, rfl, hc, hlock, rfl⟩ |
    ⟨c, token, kid, rfl, hc, rfl⟩ | ⟨c, token, kid, rfl, hc, rfl⟩ | ⟨c, reply, token, kid, t, rfl, hc, rfl⟩ |
    ⟨c, token, key, rfl, hc, rfl⟩
  · have hle : s.now ≤ s.now + duration := le_add_of_nonneg_right hd
    exact ⟨h.mutex, fun t ht => (h.past t ht).trans hle, fun t ht => (h.lastPast t ht).trans hle, h.accounted,
      fun c token kid hc t ht => (h.refreshing c token kid hc t ht).trans hle, h.apart⟩
  · exact inv_outside h (by rw [hc]; exact id) (holds_ofKid _ _ _)
  · exact inv_acquire h hlock
  · have hholds : (s.threads c).Holds := by rw [hc]; trivial
    have hended := accounted_of_holds h hholds (by rw [hc]; exact nofun)
    rcases check_cases minInterval s c token kid with ⟨key, hkey, heq⟩ | ⟨hkey, hdue, heq⟩ | ⟨hkey, hdue, heq⟩
    · rw [heq]
      exact inv_release h hholds id h.lastPast hended
    · rw [heq]
      exact inv_due h hc hdue (hg token kid hc hkey hdue)
    · rw [heq]
      exact inv_release h hholds id h.lastPast hended
  · exact inv_fetch h hc
  · exact inv_respond h hc reply
  · exact inv_outside h (by rw [hc]; exact id) id

theorem inv_reachable {s : VerifierState Key} (h : (verifying jwt minInterval).ReachableWhen (RetriesLater minInterval) s) :
    RefreshInv minInterval s := by
  refine StepSystem.ReachableWhen.invariant ?_ ?_ h
  · rintro s ⟨now, rfl⟩
    exact ⟨fun c => iff_of_false id nofun, nofun, nofun, nofun, nofun, List.Pairwise.nil⟩
  · intro s e s' hi hg hs
    exact inv_step hi hg hs

/-- Times that are an interval apart fall into it one at a time. -/
theorem countP_le_one {times : List ℚ} (h : times.Pairwise fun a b => a + minInterval ≤ b) (a : ℚ) :
    times.countP (fun t => decide (a ≤ t ∧ t < a + minInterval)) ≤ 1 := by
  rw [List.countP_eq_length_filter]
  have hpair := h.filter fun t => decide (a ≤ t ∧ t < a + minInterval)
  have hin : ∀ t ∈ times.filter (fun t => decide (a ≤ t ∧ t < a + minInterval)), a ≤ t ∧ t < a + minInterval :=
    fun t ht => of_decide_eq_true (List.mem_filter.mp ht).2
  generalize times.filter (fun t => decide (a ≤ t ∧ t < a + minInterval)) = inside at hpair hin
  match inside, hpair, hin with
  | [], _, _ => exact Nat.zero_le 1
  | [t], _, _ => exact le_rfl
  | t :: t' :: rest, hpair, hin =>
    have happart := List.rel_of_pairwise_cons hpair (List.mem_cons_self (a := t') (l := rest))
    have hfirst := (hin t List.mem_cons_self).1
    have hsecond := (hin t' (List.mem_cons_of_mem t List.mem_cons_self)).2
    linarith

end KeyRefreshAux

open KeyRefreshAux

/-- Where no thread refreshes the keys less than the interval after a refresh that failed, refreshes are throttled. -/
theorem refreshes_throttled {s : VerifierState Key}
    (h : (verifying jwt minInterval).ReachableWhen (RetriesLater minInterval) s) : Throttled minInterval s :=
  fun a => countP_le_one (inv_reachable h).apart a

namespace KeyRefreshExample

/-- A token that names the key `forged-1`. -/
def forged : String := "eyJhbGciOiJSUzI1NiIsImtpZCI6ImZvcmdlZC0xIn0.e30.c2ln"

/-- PyJWT, where this is the only token, no key is usable, and no signature is right. -/
def pyJwt : PyJwt Unit where
  unverifiedKid token := if token = forged then .ok (some "forged-1") else .error (.invalidToken false "Not enough segments")
  fromDict
    | .obj _ => .error .pyJWKSetError
    | _ => .error .attributeError
  fromDict_get body h := by
    cases body with
    | obj entries => exact absurd rfl (h entries)
    | null | bool _ | int _ | float _ | str _ | lone _ | arr _ => rfl
  decode _ _ := .error (.invalidToken false "Signature verification failed")

/-- At the start. -/
def start : VerifierState Unit := ⟨0, ⟨fun _ => none, none⟩, none, fun _ => .absent, [], []⟩

/-- A thread verifies the token, and the endpoint cannot be reached. -/
def refused (c : ℕ) : List TokenEvent := [.verify c forged, .acquire c, .check c, .fetch c, .respond c .unreachable]

/-- Two threads that verify the token, some time apart. -/
def twice (duration : ℚ) : List TokenEvent := refused 0 ++ .tick duration :: refused 1

theorem later_fetches : ((verifying pyJwt 60).run start (twice 60)).map (·.fetches) = some [0, 60] := by decide +kernel

theorem soon_fetches : ((verifying pyJwt 60).run start (twice 1)).map (·.fetches) = some [0, 1] := by decide +kernel

/-- Whether the interval has passed since every call that failed, where a thread looks for its key under the lock. -/
def hasPassed (s : VerifierState Unit) : TokenEvent → Bool
  | .check _ => decide (∀ t ∈ s.failed, t + 60 ≤ s.now)
  | _ => true

theorem later_passed : (((verifying pyJwt 60).taken start (twice 60)).all fun taken => hasPassed taken.1 taken.2) = true := by
  decide +kernel

/-- The second refresh is as much later as it has to be. -/
theorem later_meets : (verifying pyJwt 60).Meets (RetriesLater 60) start (twice 60) := by
  refine StepSystem.meets_of_taken fun taken htaken => ?_
  have hpassed := List.all_eq_true.mp later_passed taken htaken
  obtain ⟨s, e⟩ := taken
  cases e with
  | check c => exact fun _ _ _ _ _ => of_decide_eq_true hpassed
  | tick _ | verify _ _ | acquire _ | fetch _ | respond _ _ | decode _ => trivial

end KeyRefreshExample

open KeyRefreshExample in
/-- Two refreshes that fail, a minute apart. -/
theorem refreshes_throttled_later : ∃ s, (verifying pyJwt 60).run start (twice 60) = some s ∧ s.fetches = [0, 60] ∧
    Throttled 60 s := by
  obtain ⟨s, hrun, hs⟩ := Option.map_eq_some_iff.mp later_fetches
  exact ⟨s, hrun, hs, refreshes_throttled (StepSystem.ReachableWhen.run (.start ⟨0, rfl⟩) later_meets hrun)⟩

open KeyRefreshExample in
/-- While the endpoint cannot be reached, a forged token a second after another has the keys fetched again. -/
theorem refreshes_throttled_false : ¬∀ (Key : Type) (jwt : PyJwt Key) (minInterval : ℚ) (s : VerifierState Key), 0 ≤ minInterval →
    (verifying jwt minInterval).Reachable s → Throttled minInterval s := by
  intro hall
  obtain ⟨s, hrun, hs⟩ := Option.map_eq_some_iff.mp soon_fetches
  have hone := hall Unit pyJwt 60 s (by norm_num) (StepSystem.Reachable.run (.start ⟨0, rfl⟩) hrun) 0
  rw [hs] at hone
  exact absurd hone (by decide +kernel)

end FraudDetection
