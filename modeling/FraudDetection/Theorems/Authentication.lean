import FraudDetection.Lib.Except
import FraudDetection.Theorems.KeyRefresh

/-!
# Authentication fails with 401

Every error of a verification is an `InvalidTokenError`, but for what httpx and PyJWT raise outside the families that
`_signing_key` expects. The results of verifications that run at once are those of `decode`, for some readings.
-/

namespace FraudDetection

variable {Key : Type}

/-- What is neither expected of a refresh nor an `InvalidTokenError`. -/
def AuthException.escapes (e : AuthException) : Bool := !e.isExpected && !e.isInvalidToken

/-- What cannot be a key of a `dict`, and counts as true. -/
def Jwk.Unhashable (jwk : Jwk Key) : Prop :=
  match jwk.keyId with
  | .arr items => items ≠ []
  | .obj entries => entries ≠ []
  | _ => False

/-- The status is one of success, and the body is nested too deeply, or is no object, or is one that PyJWT does not read or whose
`kid`s cannot be looked up. -/
def JwksReply.Breaks (jwt : PyJwt Key) : JwksReply → Prop
  | .unreachable => False
  | .response status body => (200 ≤ status ∧ status ≤ 299) ∧
    match body with
    | .notJson => False
    | .tooDeep => True
    | .json (.obj entries) => (∃ e, jwt.fromDict (.obj entries) = .error e ∧ e.escapes) ∨
      ∃ jwks, jwt.fromDict (.obj entries) = .ok jwks ∧ ∃ jwk ∈ jwks, jwk.Unhashable
    | .json _ => True

/-- The keys are refreshed for a `kid`. -/
def Readings.Refreshes (minInterval : ℚ) (r : Readings Key) (kid : String) : Prop :=
  r.seen kid = none ∧ r.cache.keys kid = none ∧ r.cache.Due minInterval r.now

/-- A key is found for a `kid`. -/
def Readings.Finds (jwt : PyJwt Key) (minInterval : ℚ) (r : Readings Key) (kid : String) (key : Key) : Prop :=
  r.seen kid = some key ∨ r.seen kid = none ∧ r.cache.keys kid = some key ∨
    r.Refreshes minInterval kid ∧ ∃ cache, refresh jwt r.reply r.fetched = .ok cache ∧ cache.keys kid = some key

/-- A computation fails only with `InvalidTokenError`s. -/
abbrev FailsInvalid {α : Type} (x : Except AuthException α) : Prop := x.FailsOnly fun e => e.isInvalidToken = true

/-- PyJWT raises only `InvalidTokenError`s when it reads a token, and the reply to a refresh, if there is one, can be read. -/
def TokenVerifier.ReadsAll (jwt : PyJwt Key) (minInterval : ℚ) (token : String) : TokenVerifier Key → Prop
  | .publicKey key => FailsInvalid (jwt.decode token key)
  | .jwks r => FailsInvalid (jwt.unverifiedKid token) ∧
    ∀ kid, jwt.unverifiedKid token = .ok (some kid) → kid ≠ "" →
      (r.Refreshes minInterval kid → ¬r.reply.Breaks jwt) ∧
        ∀ key, r.Finds jwt minInterval kid key → FailsInvalid (jwt.decode token key)

/-- A token is decoded or fails with an `InvalidTokenError`, and a request with this token or with none has a principal or fails
with 401. -/
def AuthenticatesOr401 (py : Interpreter) (decode : String → Except AuthException Claims) (token : String) : Prop :=
  FailsInvalid (decode token) ∧ ∀ credentials, (∀ t ∈ bearerToken credentials, t = token) →
    (getCurrentPrincipal py decode credentials).FailsOnly fun e => ∃ error, e = .http error ∧ error.status = 401

namespace AuthenticationAux

variable {jwt : PyJwt Key} {minInterval : ℚ}

/-! ## Refreshes -/

/-- The keys are indexed unless one has a `kid` that cannot be looked up. -/
theorem indexKeys_cases (jwks : List (Jwk Key)) (keys : String → Option Key) :
    ((∃ jwk ∈ jwks, jwk.Unhashable) ∧ indexKeys jwks keys = .error .typeError) ∨
    (¬(∃ jwk ∈ jwks, jwk.Unhashable) ∧ ∃ keys', indexKeys jwks keys = .ok keys') := by
  induction jwks generalizing keys with
  | nil => exact .inr ⟨by simp, keys, rfl⟩
  | cons jwk jwks ih =>
    have hskip : ∀ keys', ¬jwk.Unhashable → indexKeys (jwk :: jwks) keys = indexKeys jwks keys' →
        ((∃ j ∈ jwk :: jwks, j.Unhashable) ∧ indexKeys (jwk :: jwks) keys = .error .typeError) ∨
        (¬(∃ j ∈ jwk :: jwks, j.Unhashable) ∧ ∃ keys'', indexKeys (jwk :: jwks) keys = .ok keys'') := by
      intro keys' hjwk heq
      simp only [List.exists_mem_cons_iff, hjwk, false_or, heq]
      exact ih keys'
    have hstop : jwk.Unhashable → indexKeys (jwk :: jwks) keys = .error .typeError →
        ((∃ j ∈ jwk :: jwks, j.Unhashable) ∧ indexKeys (jwk :: jwks) keys = .error .typeError) ∨
        (¬(∃ j ∈ jwk :: jwks, j.Unhashable) ∧ ∃ keys'', indexKeys (jwk :: jwks) keys = .ok keys'') :=
      fun hjwk heq => .inl ⟨⟨jwk, List.mem_cons_self, hjwk⟩, heq⟩
    obtain ⟨keyId, key⟩ := jwk
    cases keyId with
    | null => exact hskip keys id rfl
    | bool b => exact hskip keys id (by cases b <;> rfl)
    | int n => exact hskip keys id (by simp [indexKeys])
    | float x => exact hskip keys id (by simp [indexKeys])
    | str kid =>
      by_cases hkid : kid = ""
      · exact hskip keys id (by simp [indexKeys, Json.truthy, hkid])
      · exact hskip (Function.update keys kid (some key)) id (by simp [indexKeys, Json.truthy, hkid])
    | lone kid => exact hskip keys id rfl
    | arr items =>
      cases items with
      | nil => exact hskip keys (fun h => h rfl) rfl
      | cons item items => exact hstop (List.cons_ne_nil item items) rfl
    | obj entries =>
      cases entries with
      | nil => exact hskip keys (fun h => h rfl) rfl
      | cons entry entries => exact hstop (List.cons_ne_nil entry entries) rfl

/-- The key set of a body is read unless it breaks a refresh. -/
theorem readKeys_failsOnly_iff (body : Json) (now : ℚ) :
    (do let jwks ← jwt.fromDict body
        let keys ← indexKeys jwks fun _ => none
        return (⟨keys, some now⟩ : KeyCache Key)).FailsOnly (fun e : AuthException => e.escapes = false) ↔
      ¬((∃ e, jwt.fromDict body = .error e ∧ e.escapes) ∨ ∃ jwks, jwt.fromDict body = .ok jwks ∧ ∃ jwk ∈ jwks, jwk.Unhashable) := by
  cases hdict : jwt.fromDict body with
  | error e => simp
  | ok jwks =>
    rcases indexKeys_cases jwks fun _ => none with ⟨hbad, heq⟩ | ⟨hgood, keys, heq⟩
    · simp [heq, hbad, AuthException.escapes, AuthException.isExpected, AuthException.isInvalidToken]
    · simp only [Except.ok_bind, heq, Except.pure_def, Except.failsOnly_ok, true_iff]
      simpa using hgood

/-- A refresh fails with what `_signing_key` expects, or an `InvalidTokenError`, unless the reply breaks it. -/
theorem refresh_failsOnly_iff (reply : JwksReply) (now : ℚ) :
    (refresh jwt reply now).FailsOnly (fun e => e.escapes = false) ↔ ¬reply.Breaks jwt := by
  unfold refresh
  cases reply with
  | unreachable => simp [httpFetch, JwksReply.Breaks, AuthException.escapes, AuthException.isExpected]
  | response status body =>
    by_cases hstatus : 200 ≤ status ∧ status ≤ 299
    · simp only [httpFetch, JwksReply.Breaks, hstatus, if_true, true_and]
      cases body with
      | notJson => simp [JwksBody.read, AuthException.escapes, AuthException.isExpected]
      | tooDeep => simp [JwksBody.read, AuthException.escapes, AuthException.isExpected, AuthException.isInvalidToken]
      | json value =>
        rw [JwksBody.read, Except.ok_bind, readKeys_failsOnly_iff]
        cases value with
        | obj entries => exact Iff.rfl
        | null | bool _ | int _ | float _ | str _ | lone _ | arr _ =>
          rw [jwt.fromDict_get]
          · simp [AuthException.escapes, AuthException.isExpected, AuthException.isInvalidToken]
          · simp
    · simp [httpFetch, JwksReply.Breaks, hstatus, AuthException.escapes, AuthException.isExpected]

/-- What is expected of a refresh becomes an `InvalidTokenError`. -/
theorem ofRefresh_isInvalidToken (e : AuthException) : e.ofRefresh.isInvalidToken = !e.escapes := by
  cases e <;> rfl

/-! ## The signing key -/

theorem failsInvalid_bind {α β : Type} {x : Except AuthException α} {f : α → Except AuthException β} :
    FailsInvalid (x >>= f) ↔ FailsInvalid x ∧ ∀ a, x = .ok a → FailsInvalid (f a) := Except.failsOnly_bind

theorem tokenKid_failsInvalid_iff (token : String) : FailsInvalid (tokenKid jwt token) ↔ FailsInvalid (jwt.unverifiedKid token) := by
  unfold tokenKid
  cases jwt.unverifiedKid token with
  | error e => simp
  | ok kid =>
    cases kid with
    | none => simp [noKid, AuthException.isInvalidToken]
    | some kid => by_cases hkid : kid = "" <;> simp [hkid, noKid, AuthException.isInvalidToken]

theorem tokenKid_eq_ok {token kid : String} : tokenKid jwt token = .ok kid ↔ jwt.unverifiedKid token = .ok (some kid) ∧ kid ≠ "" := by
  unfold tokenKid
  cases jwt.unverifiedKid token with
  | error e => simp
  | ok found =>
    cases found with
    | none => simp [noKid]
    | some found =>
      by_cases hfound : found = ""
      · simp only [Except.ok_bind, hfound, if_true, reduceCtorEq, Except.ok.injEq, Option.some.injEq, false_iff, not_and]
        exact fun h h' => h' h.symm
      · simp only [Except.ok_bind, hfound, if_false, Except.pure_def, Except.ok.injEq, Option.some.injEq]
        exact ⟨fun h => ⟨h, h ▸ hfound⟩, And.left⟩

/-- A key is looked for, and the errors are those of the refresh. -/
theorem findKey_failsInvalid_iff (r : Readings Key) (kid : String) :
    FailsInvalid (findKey jwt minInterval r kid) ↔ (r.Refreshes minInterval kid → ¬r.reply.Breaks jwt) := by
  unfold findKey Readings.Refreshes
  cases hseen : r.seen kid with
  | some key => simp
  | none =>
    unfold lockedKey
    cases hcache : r.cache.keys kid with
    | some key => simp
    | none =>
      by_cases hdue : r.cache.Due minInterval r.now
      · simp only [hdue, if_true, and_self, forall_const]
        rw [← refresh_failsOnly_iff r.reply r.fetched]
        cases refresh jwt r.reply r.fetched with
        | error e => simp [ofRefresh_isInvalidToken]
        | ok cache => cases hkey : cache.keys kid <;> simp [hkey, unknownKey, AuthException.isInvalidToken]
      · simp [hdue, unknownKey, AuthException.isInvalidToken]

theorem findKey_eq_ok {r : Readings Key} {kid : String} {key : Key} :
    findKey jwt minInterval r kid = .ok key ↔ r.Finds jwt minInterval kid key := by
  unfold findKey Readings.Finds Readings.Refreshes
  cases hseen : r.seen kid with
  | some key' => simp
  | none =>
    unfold lockedKey
    cases hcache : r.cache.keys kid with
    | some key' => simp
    | none =>
      by_cases hdue : r.cache.Due minInterval r.now
      · cases refresh jwt r.reply r.fetched with
        | error e => simp [hdue]
        | ok cache => cases hkey : cache.keys kid <;> simp [hdue, hkey]
      · simp [hdue]

/-- A verification fails only with `InvalidTokenError`s where all that it reads can be read. -/
theorem decode_failsInvalid_iff (verifier : TokenVerifier Key) (token : String) :
    FailsInvalid (verifier.decode jwt minInterval token) ↔ verifier.ReadsAll jwt minInterval token := by
  unfold TokenVerifier.decode
  rw [failsInvalid_bind]
  cases verifier with
  | publicKey key => simp [TokenVerifier.signingKey, TokenVerifier.ReadsAll]
  | jwks r =>
    unfold TokenVerifier.signingKey signingKey TokenVerifier.ReadsAll
    rw [failsInvalid_bind, tokenKid_failsInvalid_iff, and_assoc]
    refine and_congr_right fun _ => ?_
    constructor
    · intro ⟨hfind, hdecode⟩ kid hkid hne
      have htoken := tokenKid_eq_ok.mpr ⟨hkid, hne⟩
      refine ⟨(findKey_failsInvalid_iff r kid).mp (hfind kid htoken), fun key hkey => hdecode key ?_⟩
      exact Except.bind_eq_ok.mpr ⟨kid, htoken, findKey_eq_ok.mpr hkey⟩
    · intro h
      refine ⟨fun kid htoken => ?_, fun key hkey => ?_⟩
      · obtain ⟨hkid, hne⟩ := tokenKid_eq_ok.mp htoken
        exact (findKey_failsInvalid_iff r kid).mpr (h kid hkid hne).1
      · obtain ⟨kid, htoken, hfound⟩ := Except.bind_eq_ok.mp hkey
        obtain ⟨hkid, hne⟩ := tokenKid_eq_ok.mp htoken
        exact (h kid hkid hne).2 key (findKey_eq_ok.mp hfound)

/-! ## The caller -/

/-- A request whose token fails only with `InvalidTokenError`s fails with 401. -/
theorem getCurrentPrincipal_fails {py : Interpreter} {decode : String → Except AuthException Claims} {token : String}
    (h : FailsInvalid (decode token)) (credentials : Option Credentials) (hc : ∀ t ∈ bearerToken credentials, t = token) :
    (getCurrentPrincipal py decode credentials).FailsOnly fun e => ∃ error, e = .http error ∧ error.status = 401 := by
  intro e he
  unfold getCurrentPrincipal at he
  split at he
  · exact ⟨_, (Except.error.inj he).symm, rfl⟩
  rename_i t ht
  obtain rfl := hc t ht
  split at he
  · exact ⟨_, (Except.error.inj he).symm, rfl⟩
  · exact ⟨_, (Except.error.inj he).symm, rfl⟩
  · rename_i e' hexpired hinvalid heq
    have hclass := h e' heq
    cases e' with
    | invalidToken expired message => cases expired with
      | true => exact absurd rfl (hexpired message)
      | false => exact absurd rfl (hinvalid message)
    | httpError | valueError | recursionError | attributeError | typeError | pyJWKError | pyJWKSetError | other _ => nomatch hclass
  · dsimp only at he
    split at he
    · exact ⟨_, (Except.error.inj he).symm, rfl⟩
    · nomatch he

/-! ## Verifications that run at once -/

/-- What a verification has found so far is what one by itself finds, for some readings. -/
def Explained (jwt : PyJwt Key) (minInterval : ℚ) : TokenPhase Key → Prop
  | .absent => True
  | .waiting token kid | .locked token kid => tokenKid jwt token = .ok kid
  | .refreshing token kid | .fetching token kid _ => tokenKid jwt token = .ok kid ∧
    ∃ (cache : KeyCache Key) (now : ℚ), cache.keys kid = none ∧ cache.Due minInterval now
  | .verifying token key => ∃ r, signingKey jwt minInterval r token = .ok key
  | .ended result => ∃ r token, result = (TokenVerifier.jwks r).decode jwt minInterval token

theorem decode_jwks (r : Readings Key) (token : String) : (TokenVerifier.jwks r).decode jwt minInterval token =
    signingKey jwt minInterval r token >>= jwt.decode token := rfl

/-- A verification that finds no key fails. -/
theorem decode_of_signingKey_error {r : Readings Key} {token : String} {e : AuthException}
    (h : signingKey jwt minInterval r token = .error e) : (TokenVerifier.jwks r).decode jwt minInterval token = .error e := by
  rw [decode_jwks, h, Except.error_bind]

/-- A verification goes on with what it found under the lock. -/
theorem explained_ofKey {r : Readings Key} {token kid : String} {found : Option Key} (htoken : tokenKid jwt token = .ok kid)
    (hseen : r.seen kid = none) (hlocked : lockedKey jwt minInterval r kid = .ok found) :
    Explained jwt minInterval (TokenPhase.ofKey token found) := by
  have hsigning : signingKey jwt minInterval r token = match found with
      | some key => .ok key
      | none => .error unknownKey := by
    unfold signingKey findKey
    rw [htoken, Except.ok_bind, hseen]
    simp only [hlocked, Except.ok_bind]
    cases found <;> rfl
  cases found with
  | some key => exact ⟨r, hsigning⟩
  | none => exact ⟨r, token, (decode_of_signingKey_error hsigning).symm⟩

theorem explained_ofKid (keys : String → Option Key) (token : String) :
    Explained jwt minInterval (TokenPhase.ofKid keys token (tokenKid jwt token)) := by
  let r : Readings Key := ⟨keys, ⟨keys, none⟩, 0, .unreachable, 0⟩
  unfold TokenPhase.ofKid
  split
  · rename_i e htoken
    refine ⟨r, token, (decode_of_signingKey_error ?_).symm⟩
    unfold signingKey
    rw [htoken, Except.error_bind]
  · rename_i kid htoken
    split
    · rename_i key hseen
      refine ⟨r, ?_⟩
      unfold signingKey findKey
      simp only [htoken, Except.ok_bind, r, hseen]
    · exact htoken

/-- What every thread has found is explained. -/
def AllExplained (jwt : PyJwt Key) (minInterval : ℚ) (s : VerifierState Key) : Prop :=
  ∀ c, Explained jwt minInterval (s.threads c)

theorem explained_update {s : VerifierState Key} (h : AllExplained jwt minInterval s) (c : ℕ) {phase : TokenPhase Key}
    (hphase : Explained jwt minInterval phase) (c' : ℕ) : Explained jwt minInterval (Function.update s.threads c phase c') :=
  (Function.forall_update_iff s.threads fun _ p => Explained jwt minInterval p).mpr ⟨hphase, fun c' _ => h c'⟩ c'

/-- A step explains what it finds. -/
theorem explained_step {s s' : VerifierState Key} {e : TokenEvent} (h : AllExplained jwt minInterval s)
    (hs : tokenStep jwt minInterval s e = some s') : AllExplained jwt minInterval s' := by
  rcases KeyRefreshAux.step_cases hs with ⟨duration, rfl, hd, rfl⟩ | ⟨c, token, rfl, hc, rfl⟩ |
    ⟨c, token, kid, rfl, hc, hlock, rfl⟩ | ⟨c, token, kid, rfl, hc, rfl⟩ | ⟨c, token, kid, rfl, hc, rfl⟩ |
    ⟨c, reply, token, kid, t, rfl, hc, rfl⟩ | ⟨c, token, key, rfl, hc, rfl⟩
  · exact h
  · exact explained_update h c (explained_ofKid _ _)
  · have hphase := h c
    rw [hc] at hphase
    exact explained_update h c hphase
  · have htoken := h c
    rw [hc] at htoken
    let r : Readings Key := ⟨fun _ => none, s.cache, s.now, .unreachable, s.now⟩
    rcases KeyRefreshAux.check_cases minInterval s c token kid with ⟨key, hkey, heq⟩ | ⟨hkey, hdue, heq⟩ |
      ⟨hkey, hdue, heq⟩
    · have hlocked : lockedKey jwt minInterval r kid = .ok (some key) := by simp [lockedKey, r, hkey]
      rw [heq]
      exact explained_update h c (explained_ofKey htoken rfl hlocked)
    · rw [heq]
      exact explained_update h c ⟨htoken, s.cache, s.now, hkey, hdue⟩
    · have hlocked : lockedKey jwt minInterval r kid = .ok none := by simp [lockedKey, r, hkey, hdue]
      rw [heq]
      exact explained_update h c (explained_ofKey htoken rfl hlocked)
  · have hphase := h c
    rw [hc] at hphase
    exact explained_update h c hphase
  · have hphase := h c
    rw [hc] at hphase
    obtain ⟨htoken, cache, now, hkey, hdue⟩ := hphase
    let r : Readings Key := ⟨fun _ => none, cache, now, reply, s.now⟩
    unfold VerifierState.respond
    cases hrefresh : refresh jwt reply s.now with
    | ok cache' =>
      have hlocked : lockedKey jwt minInterval r kid = .ok (cache'.keys kid) := by simp [lockedKey, r, hkey, hdue, hrefresh]
      exact explained_update h c (explained_ofKey htoken rfl hlocked)
    | error e =>
      have hlocked : lockedKey jwt minInterval r kid = .error e.ofRefresh := by simp [lockedKey, r, hkey, hdue, hrefresh]
      refine explained_update h c ⟨r, token, (decode_of_signingKey_error ?_).symm⟩
      unfold signingKey findKey
      simp only [htoken, Except.ok_bind, r, hlocked, Except.error_bind]
  · have hphase := h c
    rw [hc] at hphase
    obtain ⟨r, hr⟩ := hphase
    refine explained_update h c ⟨r, token, ?_⟩
    rw [decode_jwks, hr, Except.ok_bind]

end AuthenticationAux

open AuthenticationAux

/-- A verification that has ended, whatever ran with it, ended as one by itself does, for some readings. -/
theorem verification_decodes {jwt : PyJwt Key} {minInterval : ℚ} {s : VerifierState Key}
    (h : (verifying jwt minInterval).Reachable s) {c : ℕ} {result : Except AuthException Claims} (hc : s.threads c = .ended result) :
    ∃ r token, result = (TokenVerifier.jwks r).decode jwt minInterval token := by
  have hall : AllExplained jwt minInterval s := by
    refine StepSystem.Reachable.invariant ?_ ?_ h
    · rintro s ⟨now, rfl⟩ c
      trivial
    · intro s e s' hi hs
      exact explained_step hi hs
  have hended := hall c
  rwa [hc] at hended

/-- Authentication fails only with 401 exactly where all that it reads can be read. -/
theorem authenticates_or_401_iff (jwt : PyJwt Key) (py : Interpreter) (minInterval : ℚ) (verifier : TokenVerifier Key)
    (token : String) :
    AuthenticatesOr401 py (verifier.decode jwt minInterval) token ↔ verifier.ReadsAll jwt minInterval token := by
  rw [← decode_failsInvalid_iff]
  exact ⟨And.left, fun h => ⟨h, getCurrentPrincipal_fails h⟩⟩

namespace AuthenticationExample

open KeyRefreshExample

/-- pydantic, of which nothing is used. -/
def interpreter : Interpreter where
  laxInt
    | .int n => .ok n
    | .bool b => .ok (if b then 1 else 0)
    | _ => .error "Input should be a valid integer"
  laxInt_int := fun _ => rfl
  repr := fun _ => ""

/-- The endpoint answers the first refresh with a key set that has no key. -/
def verifier : TokenVerifier Unit :=
  .jwks ⟨fun _ => none, ⟨fun _ => none, none⟩, 0, .response 200 (.json (.obj [("keys", .arr [])])), 0⟩

theorem forged_fails : verifier.decode pyJwt 60 forged = .error .pyJWKSetError := rfl

end AuthenticationExample

open KeyRefreshExample AuthenticationExample in
/-- A key set that has no key lets an error through. -/
theorem authenticates_or_401_false : ¬∀ (Key : Type) (jwt : PyJwt Key) (py : Interpreter) (minInterval : ℚ)
    (verifier : TokenVerifier Key) (token : String), 0 ≤ minInterval →
      AuthenticatesOr401 py (verifier.decode jwt minInterval) token := by
  intro hall
  have hfails := (hall Unit pyJwt interpreter 60 verifier forged (by norm_num)).1 _ forged_fails
  exact absurd hfails (by decide)

end FraudDetection
