import FraudDetection.Lib.Simulation
import FraudDetection.Theorems.KeyRefresh

/-!
# Which keys verify a token

The cached key set is replaced whole by every refresh, and any thread may cause one. So a token is accepted only with a key of a set that
was in place at some time during its verification; and once the identity provider publishes a new key, tokens signed with it are refused
as unknown for no longer than the interval between refreshes.
-/

namespace FraudDetection

variable {Key : Type} {jwt : PyJwt Key} {minInterval : ℚ}

/-- The key set that a step puts in place, if it does. -/
def publishes (jwt : PyJwt Key) (s : VerifierState Key) : TokenEvent → List (String → Option Key)
  | .respond c reply =>
    match s.threads c, refresh jwt reply s.now with
    | .fetching _ _ _, .ok cache => [cache.keys]
    | _, _ => []
  | _ => []

/-- The key sets that a run puts in place, in order. -/
def keySets (jwt : PyJwt Key) (minInterval : ℚ) : VerifierState Key → List TokenEvent → List (String → Option Key) :=
  (verifying jwt minInterval).emitted (publishes jwt)

/-- From a time on, every key set that is fetched has a key id. -/
def KeyPublished (jwt : PyJwt Key) (kid : String) (since : ℚ) (s : VerifierState Key) : TokenEvent → Prop
  | .respond _ reply => since ≤ s.now → ∀ cache, refresh jwt reply s.now = .ok cache → cache.keys kid ≠ none
  | _ => True

namespace SigningKeysAux

open KeyRefreshAux

/-! ## The key set in place -/

/-- What a step does to the key set: nothing, or it puts another one in place. -/
theorem cache_step {s s' : VerifierState Key} {e : TokenEvent} (hs : tokenStep jwt minInterval s e = some s') :
    (publishes jwt s e = [] ∧ s'.cache = s.cache) ∨
      ∃ c reply token kid calledAt cache, e = .respond c reply ∧ s.threads c = .fetching token kid calledAt ∧
        refresh jwt reply s.now = .ok cache ∧ publishes jwt s e = [cache.keys] ∧ s'.cache = cache := by
  rcases step_cases hs with ⟨duration, rfl, hd, rfl⟩ | ⟨c, token, rfl, hc, rfl⟩ | ⟨c, token, kid, rfl, hc, hlock, rfl⟩ |
    ⟨c, token, kid, rfl, hc, rfl⟩ | ⟨c, token, kid, rfl, hc, rfl⟩ | ⟨c, reply, token, kid, t, rfl, hc, rfl⟩ |
    ⟨c, token, key, rfl, hc, rfl⟩
  · exact .inl ⟨rfl, rfl⟩
  · exact .inl ⟨rfl, rfl⟩
  · exact .inl ⟨rfl, rfl⟩
  · refine .inl ⟨rfl, ?_⟩
    rcases check_cases minInterval s c token kid with ⟨key, -, heq⟩ | ⟨-, -, heq⟩ | ⟨-, -, heq⟩
    all_goals
      rw [heq]
      rfl
  · exact .inl ⟨rfl, rfl⟩
  · cases hr : refresh jwt reply s.now with
    | ok cache =>
      refine .inr ⟨c, reply, token, kid, t, cache, rfl, hc, hr, ?_, ?_⟩
      · simp only [publishes, hc, hr]
      · simp only [VerifierState.respond, hr]
    | error e =>
      refine .inl ⟨?_, ?_⟩
      · simp only [publishes, hc, hr]
      · simp only [VerifierState.respond, hr]
        rfl
  · exact .inl ⟨rfl, rfl⟩

/-- The key set in place is the last one that was put there. -/
theorem cache_run {s t : VerifierState Key} {es : List TokenEvent} (hs : (verifying jwt minInterval).start s)
    (hr : (verifying jwt minInterval).run s es = some t) :
    t.cache.keys = (keySets jwt minInterval s es).getLast?.getD fun _ => none := by
  obtain ⟨now, rfl⟩ := hs
  refine @StepSystem.emitted_invariant _ _ _ _ _ (fun s sets => s.cache.keys = sets.getLast?.getD fun _ => none) ?_ es _ t [] hr rfl
  intro s sets e s' hi hstep
  rcases cache_step hstep with ⟨hnone, hcache⟩ | ⟨c, reply, token, kid, calledAt, cache, -, -, -, hone, hcache⟩
  · rw [hnone, List.append_nil, hcache]
    exact hi
  · rw [hone, List.getLast?_concat, hcache]
    rfl

/-! ## One verification among the others -/

/-- The steps of one thread, after its first. -/
theorem thread_step {s s' : VerifierState Key} {e : TokenEvent} (hs : tokenStep jwt minInterval s e = some s') (c : ℕ) :
    s'.threads c = s.threads c ∨
    (∃ token, e = .verify c token ∧ s.threads c = .absent) ∨
    (∃ token kid, s.threads c = .waiting token kid ∧ s'.threads c = .locked token kid) ∨
    (∃ token kid, s.threads c = .locked token kid ∧
      ((∃ key, s.cache.keys kid = some key ∧ s'.threads c = .verifying token key) ∨
        (s.cache.keys kid = none ∧ s.cache.Due minInterval s.now ∧ s'.threads c = .refreshing token kid) ∨
        (s.cache.keys kid = none ∧ ¬s.cache.Due minInterval s.now ∧ s'.threads c = .ended (.error unknownKey)))) ∨
    (∃ token kid, s.threads c = .refreshing token kid ∧ s'.threads c = .fetching token kid s.now) ∨
    (∃ reply token kid calledAt, e = .respond c reply ∧ s.threads c = .fetching token kid calledAt ∧
      ((∃ cache, refresh jwt reply s.now = .ok cache ∧ s'.threads c = TokenPhase.ofKey token (cache.keys kid)) ∨
        ∃ error, refresh jwt reply s.now = .error error ∧ s'.threads c = .ended (.error error.ofRefresh))) ∨
    ∃ token key, s.threads c = .verifying token key ∧ s'.threads c = .ended (jwt.decode token key) := by
  have hother : ∀ {c'} {phase : TokenPhase Key}, c ≠ c' → Function.update s.threads c' phase c = s.threads c :=
    fun hne => Function.update_of_ne hne ..
  have hself : ∀ {phase : TokenPhase Key}, Function.update s.threads c phase c = phase := Function.update_self ..
  rcases step_cases hs with ⟨duration, rfl, hd, rfl⟩ | ⟨c', token, rfl, hc, rfl⟩ | ⟨c', token, kid, rfl, hc, hlock, rfl⟩ |
    ⟨c', token, kid, rfl, hc, rfl⟩ | ⟨c', token, kid, rfl, hc, rfl⟩ | ⟨c', reply, token, kid, t, rfl, hc, rfl⟩ |
    ⟨c', token, key, rfl, hc, rfl⟩
  · exact .inl rfl
  all_goals by_cases heq : c = c'
  · subst heq
    exact .inr (.inl ⟨token, rfl, hc⟩)
  · exact .inl (hother heq)
  · subst heq
    exact .inr (.inr (.inl ⟨token, kid, hc, hself⟩))
  · exact .inl (hother heq)
  · subst heq
    refine .inr (.inr (.inr (.inl ⟨token, kid, hc, ?_⟩)))
    rcases check_cases minInterval s c token kid with ⟨key, hkey, hq⟩ | ⟨hkey, hdue, hq⟩ | ⟨hkey, hdue, hq⟩
    · rw [hq]
      exact .inl ⟨key, hkey, hself⟩
    · rw [hq]
      exact .inr (.inl ⟨hkey, hdue, hself⟩)
    · rw [hq]
      exact .inr (.inr ⟨hkey, hdue, hself⟩)
  · refine .inl ?_
    rcases check_cases minInterval s c' token kid with ⟨key, hkey, hq⟩ | ⟨hkey, hdue, hq⟩ | ⟨hkey, hdue, hq⟩
    all_goals
      rw [hq]
      exact hother heq
  · subst heq
    exact .inr (.inr (.inr (.inr (.inl ⟨token, kid, hc, hself⟩))))
  · exact .inl (hother heq)
  · subst heq
    refine .inr (.inr (.inr (.inr (.inr (.inl ⟨reply, token, kid, t, rfl, hc, ?_⟩)))))
    cases hr : refresh jwt reply s.now with
    | ok cache =>
      refine .inl ⟨cache, rfl, ?_⟩
      simp only [VerifierState.respond, hr]
      exact hself
    | error error =>
      refine .inr ⟨error, rfl, ?_⟩
      simp only [VerifierState.respond, hr]
      exact hself
  · refine .inl ?_
    unfold VerifierState.respond
    split
    all_goals exact hother heq
  · subst heq
    exact .inr (.inr (.inr (.inr (.inr (.inr ⟨token, key, hc, hself⟩)))))
  · exact .inl (hother heq)

/-- What a verification of a token has found in some key sets. -/
def Found (jwt : PyJwt Key) (token : String) (sets : List (String → Option Key)) : TokenPhase Key → Prop
  | .absent => False
  | .waiting token' kid | .locked token' kid | .refreshing token' kid | .fetching token' kid _ =>
    token' = token ∧ tokenKid jwt token = .ok kid
  | .verifying token' key => token' = token ∧ ∃ kid, tokenKid jwt token = .ok kid ∧ ∃ keys ∈ sets, keys kid = some key
  | .ended (.ok claims) => ∃ kid keys key, tokenKid jwt token = .ok kid ∧ keys ∈ sets ∧ keys kid = some key ∧
    jwt.decode token key = .ok claims
  | .ended (.error _) => True

theorem found_mono {token : String} {sets more : List (String → Option Key)} {phase : TokenPhase Key}
    (h : Found jwt token sets phase) : Found jwt token (sets ++ more) phase := by
  cases phase with
  | verifying token' key =>
    obtain ⟨heq, kid, hkid, keys, hkeys, hkey⟩ := h
    exact ⟨heq, kid, hkid, keys, List.mem_append_left _ hkeys, hkey⟩
  | ended result =>
    cases result with
    | ok claims =>
      obtain ⟨kid, keys, key, hkid, hkeys, hkey, hdecode⟩ := h
      exact ⟨kid, keys, key, hkid, List.mem_append_left _ hkeys, hkey, hdecode⟩
    | error e => trivial
  | _ => exact h

/-- A verification goes on, beside the others: what it finds is in the set in place, or in the one it fetches. -/
theorem found_step {s s' : VerifierState Key} {e : TokenEvent} {c : ℕ} {token : String} {sets : List (String → Option Key)}
    (hs : tokenStep jwt minInterval s e = some s') (hcurrent : s.cache.keys ∈ sets) (h : Found jwt token sets (s.threads c)) :
    s'.cache.keys ∈ sets ++ publishes jwt s e ∧ Found jwt token (sets ++ publishes jwt s e) (s'.threads c) := by
  have hcache : s'.cache.keys ∈ sets ++ publishes jwt s e := by
    rcases cache_step hs with ⟨-, hcache⟩ | ⟨c, reply, token, kid, calledAt, cache, -, -, -, hone, hcache⟩
    · rw [hcache]
      exact List.mem_append_left _ hcurrent
    · rw [hone, hcache]
      exact List.mem_append_right _ (List.mem_singleton_self _)
  refine ⟨hcache, ?_⟩
  rcases thread_step hs c with heq | ⟨t, -, hc⟩ | ⟨t, kid, hc, hc'⟩ | ⟨t, kid, hc, hc'⟩ | ⟨t, kid, hc, hc'⟩ |
    ⟨reply, t, kid, calledAt, rfl, hc, hc'⟩ | ⟨t, key, hc, hc'⟩
  · rw [heq]
    exact found_mono h
  · rw [hc] at h
    exact absurd h id
  · rw [hc] at h
    rw [hc']
    exact h
  · rw [hc] at h
    obtain ⟨htoken, hkid⟩ := h
    rcases hc' with ⟨key, hkey, hc'⟩ | ⟨-, -, hc'⟩ | ⟨-, -, hc'⟩
    · rw [hc']
      exact ⟨htoken, kid, hkid, s.cache.keys, List.mem_append_left _ hcurrent, hkey⟩
    · rw [hc']
      exact ⟨htoken, hkid⟩
    · rw [hc']
      trivial
  · rw [hc] at h
    rw [hc']
    exact h
  · rw [hc] at h
    obtain ⟨htoken, hkid⟩ := h
    rcases hc' with ⟨cache, hr, hc'⟩ | ⟨error, -, hc'⟩
    · rw [hc']
      cases hkey : cache.keys kid with
      | none => trivial
      | some key =>
        refine ⟨htoken, kid, hkid, cache.keys, ?_, hkey⟩
        simp only [publishes, hc, hr]
        exact List.mem_append_right _ (List.mem_singleton_self _)
    · rw [hc']
      trivial
  · rw [hc] at h
    obtain ⟨htoken, kid, hkid, keys, hkeys, hkey⟩ := h
    rw [hc']
    cases hdecode : jwt.decode t key with
    | error e => trivial
    | ok claims => exact ⟨kid, keys, key, hkid, List.mem_append_left _ hkeys, hkey, htoken ▸ hdecode⟩

/-- A verification begins by looking in the set in place. -/
theorem found_ofKid (keys : String → Option Key) (token : String) :
    Found jwt token [keys] (TokenPhase.ofKid keys token (tokenKid jwt token)) := by
  unfold TokenPhase.ofKid
  split
  · trivial
  · rename_i kid hkid
    split
    · rename_i key hkey
      exact ⟨rfl, kid, hkid, keys, List.mem_singleton_self _, hkey⟩
    · exact ⟨rfl, hkid⟩

end SigningKeysAux

open SigningKeysAux

/-- A token is accepted only with the key that its key id names in a key set that the identity provider has sent: the one in place when
its verification began, or one put in place since. -/
theorem accepted_by_current_key {s t u : VerifierState Key} {before after : List TokenEvent} {c : ℕ} {token : String} {claims : Claims}
    (hs : (verifying jwt minInterval).start s) (ht : (verifying jwt minInterval).run s before = some t)
    (hu : (verifying jwt minInterval).run t (.verify c token :: after) = some u) (hok : u.threads c = .ended (.ok claims)) :
    ∃ kid keys key, tokenKid jwt token = .ok kid ∧
      keys ∈ ((keySets jwt minInterval s before).getLast?.getD fun _ => none) :: keySets jwt minInterval t (.verify c token :: after) ∧
      keys kid = some key ∧ jwt.decode token key = .ok claims := by
  obtain ⟨v, hv, hu⟩ := StepSystem.run_cons hu
  have hsets : keySets jwt minInterval t (.verify c token :: after) = keySets jwt minInterval v after :=
    StepSystem.emitted_cons (publishes jwt) hv after
  rw [hsets, ← cache_run hs ht]
  have hfirst : v.cache.keys ∈ [t.cache.keys] ∧ Found jwt token [t.cache.keys] (v.threads c) := by
    simp only [verifying, tokenStep] at hv
    split at hv
    · cases hv
      refine ⟨List.mem_singleton_self _, ?_⟩
      rw [show (t.goTo c _).threads c = _ from Function.update_self ..]
      exact found_ofKid _ _
    · cases hv
  have hall := StepSystem.emitted_invariant (fun s sets => s.cache.keys ∈ sets ∧ Found jwt token sets (s.threads c))
    (fun s sets e s' hi hstep => found_step hstep hi.1 hi.2) hu hfirst
  have hfound := hall.2
  rw [hok] at hfound
  exact hfound

namespace SigningKeysAux

/-! ## A new key -/

/-- Time only passes. -/
theorem now_mono {s s' : VerifierState Key} {e : TokenEvent} (hs : tokenStep jwt minInterval s e = some s') : s.now ≤ s'.now := by
  rcases KeyRefreshAux.step_cases hs with ⟨duration, rfl, hd, rfl⟩ | ⟨c, token, rfl, hc, rfl⟩ | ⟨c, token, kid, rfl, hc, hlock, rfl⟩ |
    ⟨c, token, kid, rfl, hc, rfl⟩ | ⟨c, token, kid, rfl, hc, rfl⟩ | ⟨c, reply, token, kid, t, rfl, hc, rfl⟩ |
    ⟨c, token, key, rfl, hc, rfl⟩
  · exact le_add_of_nonneg_right hd
  · exact le_rfl
  · exact le_rfl
  · rcases KeyRefreshAux.check_cases minInterval s c token kid with ⟨key, -, heq⟩ | ⟨-, -, heq⟩ | ⟨-, -, heq⟩
    all_goals
      rw [heq]
      exact le_rfl
  · exact le_rfl
  · unfold VerifierState.respond
    split
    all_goals exact le_rfl
  · exact le_rfl

/-- A key set that was fetched since then has the key id. -/
def Cached (kid : String) (since : ℚ) (s : VerifierState Key) : Prop :=
  ∀ lastFetch ∈ s.cache.lastFetch, since ≤ lastFetch → s.cache.keys kid ≠ none

theorem cached_step {kid : String} {since : ℚ} {s s' : VerifierState Key} {e : TokenEvent}
    (hs : tokenStep jwt minInterval s e = some s') (hg : KeyPublished jwt kid since s e) (h : Cached kid since s) : Cached kid since s' := by
  intro lastFetch hlast hle
  rcases cache_step hs with ⟨-, hcache⟩ | ⟨c, reply, token, kid', calledAt, cache, rfl, -, hr, -, hcache⟩
  · rw [hcache] at hlast ⊢
    exact h lastFetch hlast hle
  · rw [hcache] at hlast ⊢
    rw [KeyRefreshAux.refresh_lastFetch hr] at hlast
    rw [← Option.some.inj hlast] at hle
    exact hg hle cache hr

/-- A verification of a token of the new key: it looks for that key, has one, or has ended with one or with a refresh that failed. -/
def Recognised (jwt : PyJwt Key) (token kid : String) : TokenPhase Key → Prop
  | .absent => False
  | .waiting token' kid' | .locked token' kid' | .refreshing token' kid' | .fetching token' kid' _ => token' = token ∧ kid' = kid
  | .verifying token' _ => token' = token
  | .ended result => (∃ key, result = jwt.decode token key) ∨
    ∃ reply now error, refresh jwt reply now = .error error ∧ result = .error error.ofRefresh

/-- It goes on, the interval after the key was published. -/
theorem recognised_step {token kid : String} {since : ℚ} {s s' : VerifierState Key} {e : TokenEvent} {c : ℕ} (hmin : 0 ≤ minInterval)
    (hs : tokenStep jwt minInterval s e = some s') (hg : KeyPublished jwt kid since s e) (hcached : Cached kid since s)
    (hnow : since + minInterval ≤ s.now) (h : Recognised jwt token kid (s.threads c)) : Recognised jwt token kid (s'.threads c) := by
  rcases thread_step hs c with heq | ⟨t, -, hc⟩ | ⟨t, kid', hc, hc'⟩ | ⟨t, kid', hc, hc'⟩ | ⟨t, kid', hc, hc'⟩ |
    ⟨reply, t, kid', calledAt, rfl, hc, hc'⟩ | ⟨t, key, hc, hc'⟩
  · rw [heq]
    exact h
  · rw [hc] at h
    exact absurd h id
  · rw [hc] at h
    rw [hc']
    exact h
  · rw [hc] at h
    obtain ⟨rfl, rfl⟩ := h
    rcases hc' with ⟨key, -, hc'⟩ | ⟨-, -, hc'⟩ | ⟨hnone, hdue, -⟩
    · rw [hc']
      rfl
    · rw [hc']
      exact ⟨rfl, rfl⟩
    · -- a set without the key is older than the key, so a refresh is due
      refine absurd (fun lastFetch hlast => ?_) hdue
      have hold : ¬since ≤ lastFetch := fun hle => hcached lastFetch hlast hle hnone
      linarith
  · rw [hc] at h
    rw [hc']
    exact h
  · rw [hc] at h
    obtain ⟨rfl, rfl⟩ := h
    rcases hc' with ⟨cache, hr, hc'⟩ | ⟨error, hr, hc'⟩
    · rw [hc']
      cases hkey : cache.keys kid' with
      | none => exact absurd hkey (hg (by linarith) cache hr)
      | some key => rfl
    · rw [hc']
      exact .inr ⟨reply, s.now, error, hr, rfl⟩
  · rw [hc] at h
    rw [hc']
    exact .inl ⟨key, congrArg (jwt.decode · key) h⟩

end SigningKeysAux

/-- Once every key set that the identity provider sends has a new key, and the interval between refreshes has passed, a token that names
this key is never refused for an unknown key: its signature is checked, unless a refresh fails. -/
theorem new_key_recognised {s t u : VerifierState Key} {before after : List TokenEvent} {c : ℕ} {token kid : String} {since : ℚ}
    {result : Except AuthException Claims} (hmin : 0 ≤ minInterval) (hs : (verifying jwt minInterval).start s)
    (hbefore : (verifying jwt minInterval).Meets (KeyPublished jwt kid since) s before)
    (ht : (verifying jwt minInterval).run s before = some t) (hnow : since + minInterval ≤ t.now) (hkid : tokenKid jwt token = .ok kid)
    (hafter : (verifying jwt minInterval).Meets (KeyPublished jwt kid since) t (.verify c token :: after))
    (hu : (verifying jwt minInterval).run t (.verify c token :: after) = some u) (hc : u.threads c = .ended result) :
    (∃ key, result = jwt.decode token key) ∨
      ∃ reply now error, refresh jwt reply now = .error error ∧ result = .error error.ofRefresh := by
  have hcached : Cached kid since t := by
    refine hbefore.invariant (fun s e s' hi hg hstep => cached_step hstep hg hi) ht ?_
    obtain ⟨now, rfl⟩ := hs
    exact nofun
  obtain ⟨v, hv, hu⟩ := StepSystem.run_cons hu
  have hverify : tokenStep jwt minInterval t (.verify c token) = some v := hv
  have hfirst : Recognised jwt token kid (v.threads c) := by
    have hstep := hverify
    simp only [tokenStep] at hstep
    split at hstep
    · cases hstep
      rw [show (t.goTo c _).threads c = _ from Function.update_self ..]
      unfold TokenPhase.ofKid
      rw [hkid]
      dsimp only
      cases t.cache.keys kid with
      | some key => rfl
      | none => exact ⟨rfl, rfl⟩
    · cases hstep
  have hlast := @StepSystem.Meets.invariant _ _ _ _
    (fun s => Cached kid since s ∧ since + minInterval ≤ s.now ∧ Recognised jwt token kid (s.threads c))
    (fun s e s' hi hg hstep => ⟨cached_step hstep hg hi.1, hi.2.1.trans (now_mono hstep), recognised_step hmin hstep hg hi.1 hi.2.1 hi.2.2⟩)
    after v u (hafter.2 v hv) hu ⟨cached_step hverify hafter.1 hcached, hnow.trans (now_mono hverify), hfirst⟩
  have hended := hlast.2.2
  rw [hc] at hended
  exact hended

namespace SigningKeysExample

/-- PyJWT, where the tokens `old` and `new` name the keys `key-1` and `key-2`, and an empty object is the key set before the second of
them was published. -/
def pyJwt : PyJwt ℕ where
  unverifiedKid token := if token = "old" then .ok (some "key-1") else .ok (some "key-2")
  fromDict
    | .obj [] => .ok [⟨.str "key-1", 1⟩]
    | .obj _ => .ok [⟨.str "key-1", 1⟩, ⟨.str "key-2", 2⟩]
    | _ => .error .attributeError
  fromDict_get body h := by
    cases body with
    | obj entries => exact absurd rfl (h entries)
    | null | bool _ | int _ | float _ | str _ | lone _ | arr _ => rfl
  decode token key := if token = "old" ∧ key = 1 ∨ token = "new" ∧ key = 2 then .ok [("sub", .str "analyst-1")]
    else .error (.invalidToken false "Signature verification failed")

/-- At the start. -/
def start : VerifierState ℕ := ⟨0, ⟨fun _ => none, none⟩, none, fun _ => .absent, [], []⟩

/-- A token of the old key is verified, and the keys are fetched for it. -/
def before : List TokenEvent :=
  [.verify 0 "old", .acquire 0, .check 0, .fetch 0, .respond 0 (.response 200 (.json (.obj []))), .decode 0, .tick 100]

/-- The rest of the verification of a token of the new key, for which they are fetched again. -/
def after : List TokenEvent :=
  [.acquire 1, .check 1, .fetch 1, .respond 1 (.response 200 (.json (.obj [("keys", .arr [])]))), .decode 1]

/-- Whether a verification has accepted its token. -/
def accepted (s : VerifierState ℕ) (c : ℕ) : Bool :=
  match s.threads c with
  | .ended (.ok _) => true
  | _ => false

theorem before_run : ((verifying pyJwt 60).run start before).map (fun t => (t.now, ((verifying pyJwt 60).run t
    (.verify 1 "new" :: after)).map fun u => accepted u 1)) = some (100, some true) := by decide +kernel

theorem accepted_iff {s : VerifierState ℕ} {c : ℕ} (h : accepted s c = true) : ∃ claims, s.threads c = .ended (.ok claims) := by
  unfold accepted at h
  split at h
  · rename_i claims hc
    exact ⟨claims, hc⟩
  · cases h

/-- What a run of them needs of its replies: the keys that come from time 40 on have the new one. -/
def hasNew (s : VerifierState ℕ) : TokenEvent → Bool
  | .respond _ reply => decide (s.now < 40) || match refresh pyJwt reply s.now with
    | .ok cache => (cache.keys "key-2").isSome
    | .error _ => true
  | _ => true

theorem hasNew_published {s : VerifierState ℕ} {e : TokenEvent} (h : hasNew s e = true) : KeyPublished pyJwt "key-2" 40 s e := by
  cases e with
  | respond c reply =>
    intro hle cache hr
    unfold hasNew at h
    simp only [hr, Bool.or_eq_true, decide_eq_true_eq] at h
    rcases h with hlt | hsome
    · exact absurd hle (not_le.mpr hlt)
    · exact fun hnone => by
        rw [hnone] at hsome
        cases hsome
  | tick _ | verify _ _ | acquire _ | fetch _ | check _ | decode _ => trivial

theorem before_new : (((verifying pyJwt 60).taken start (before ++ .verify 1 "new" :: after)).all
    fun taken => hasNew taken.1 taken.2) = true := by decide +kernel

end SigningKeysExample

open SigningKeysExample in
/-- The token of the new key is accepted, with the key of the set that was fetched for it. -/
theorem accepted_by_current_key_rotated : ∃ t u claims, (verifying pyJwt 60).run start before = some t ∧
    (verifying pyJwt 60).run t (.verify 1 "new" :: after) = some u ∧ u.threads 1 = .ended (.ok claims) ∧
    ∃ (keys : String → Option ℕ) (key : ℕ), keys "key-2" = some key ∧ pyJwt.decode "new" key = .ok claims := by
  obtain ⟨t, ht, hstate⟩ := Option.map_eq_some_iff.mp before_run
  obtain ⟨u, hu, haccepted⟩ := Option.map_eq_some_iff.mp (congrArg Prod.snd hstate)
  obtain ⟨claims, hclaims⟩ := accepted_iff haccepted
  obtain ⟨kid, keys, key, hkid, -, hkey, hdecode⟩ := accepted_by_current_key ⟨0, rfl⟩ ht hu hclaims
  have hnew : tokenKid pyJwt "new" = .ok "key-2" := by decide +kernel
  rw [hnew] at hkid
  cases hkid
  exact ⟨t, u, claims, ht, hu, hclaims, keys, key, hkey, hdecode⟩

open SigningKeysExample in
/-- A minute after the new key was published, a token that names it is judged by a key. -/
theorem new_key_recognised_rotated : ∃ t u claims, (verifying pyJwt 60).run start before = some t ∧
    (verifying pyJwt 60).run t (.verify 1 "new" :: after) = some u ∧ u.threads 1 = .ended (.ok claims) ∧
    ((∃ key, Except.ok claims = pyJwt.decode "new" key) ∨
      ∃ reply now error, refresh pyJwt reply now = .error error ∧ (Except.ok claims : Except AuthException Claims) = .error error.ofRefresh) := by
  obtain ⟨t, ht, hstate⟩ := Option.map_eq_some_iff.mp before_run
  obtain ⟨u, hu, haccepted⟩ := Option.map_eq_some_iff.mp (congrArg Prod.snd hstate)
  obtain ⟨claims, hclaims⟩ := accepted_iff haccepted
  have hnow : t.now = 100 := congrArg Prod.fst hstate
  have hpublished : ∀ taken ∈ (verifying pyJwt 60).taken start before ++ (verifying pyJwt 60).taken t (.verify 1 "new" :: after),
      KeyPublished pyJwt "key-2" 40 taken.1 taken.2 := by
    have hall := before_new
    rw [StepSystem.taken_append ht] at hall
    exact fun taken htaken => hasNew_published (List.all_eq_true.mp hall taken htaken)
  refine ⟨t, u, claims, ht, hu, hclaims, ?_⟩
  have hbefore : (verifying pyJwt 60).Meets (KeyPublished pyJwt "key-2" 40) start before :=
    StepSystem.meets_of_taken fun taken htaken => hpublished taken (List.mem_append_left _ htaken)
  have hafter : (verifying pyJwt 60).Meets (KeyPublished pyJwt "key-2" 40) t (.verify 1 "new" :: after) :=
    StepSystem.meets_of_taken fun taken htaken => hpublished taken (List.mem_append_right _ htaken)
  have hkid : tokenKid pyJwt "new" = .ok "key-2" := by decide +kernel
  refine new_key_recognised (by norm_num) ⟨0, rfl⟩ hbefore ht ?_ hkid hafter hu hclaims
  rw [hnow]
  norm_num

end FraudDetection
