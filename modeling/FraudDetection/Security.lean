import FraudDetection.Errors
import FraudDetection.Lib.StepSystem
import FraudDetection.Parsing
import Mathlib.Algebra.Order.Ring.Rat
import Mathlib.Data.Finset.Dedup
import Mathlib.Logic.Function.Basic

/-!
# Authentication

A bearer token is verified with a key of the identity provider, whose key set is cached and fetched again when a token names a key
that is not in it. `decode` is one verification, with all it reads; `verifying` is any number of them, in threads that share the
cache and its lock.
-/

namespace FraudDetection

/-! ## What is used of httpx and PyJWT -/

/-- What a verification can raise. A class stands for its subclasses that are not told apart. -/
inductive AuthException where
  | httpError
  | valueError
  | recursionError
  | attributeError
  | typeError
  | pyJWKError
  /-- No subclass of `PyJWKError`. -/
  | pyJWKSetError
  /-- `InvalidTokenError`; `ExpiredSignatureError` when it has expired. -/
  | invalidToken (expired : Bool) (message : String)
  | other (name : String)
  deriving DecidableEq, Repr

/-- `isinstance(exc, jwt.InvalidTokenError)`. -/
def AuthException.isInvalidToken : AuthException → Bool
  | .invalidToken _ _ => true
  | _ => false

/-- The claims of a token. -/
abbrev Claims := List (String × Json)

/-- A key of a key set, and what stands under its `kid` (`null` where nothing does). -/
structure Jwk (Key : Type) where
  keyId : Json
  key : Key

/-- What is used of PyJWT. -/
structure PyJwt (Key : Type) where
  /-- `get_unverified_header(token).get("kid")`. -/
  unverifiedKid : String → Except AuthException (Option String)
  /-- `PyJWKSet.from_dict(obj).keys`. It raises `PyJWKSetError` when it finds no usable key. -/
  fromDict : Json → Except AuthException (List (Jwk Key))
  /-- It calls `.get` on the decoded body. -/
  fromDict_get : ∀ body, (∀ entries, body ≠ .obj entries) → fromDict body = .error .attributeError
  /-- `jwt.decode`, with the algorithms, the audience, the issuer and the leeway of the settings. -/
  decode : String → Key → Except AuthException Claims

/-- The body of a response, as `response.json()` reads it. -/
inductive JwksBody where
  | notJson
  /-- Nested too deeply for the decoder. -/
  | tooDeep
  | json (value : Json)

/-- What comes of a request to the JWKS endpoint. -/
inductive JwksReply where
  | unreachable
  | response (status : ℕ) (body : JwksBody)

/-- `response.json()`. -/
def JwksBody.read : JwksBody → Except AuthException Json
  | .notJson => .error .valueError
  | .tooDeep => .error .recursionError
  | .json value => .ok value

/-- `_http_fetch`. -/
def httpFetch : JwksReply → Except AuthException Json
  | .unreachable => .error .httpError
  | .response status body => if 200 ≤ status ∧ status ≤ 299 then body.read else .error .httpError

/-! ## The key set -/

/-- `_keys` and `_last_fetch`, which is minus infinity before the first refresh. -/
structure KeyCache (Key : Type) where
  keys : String → Option Key
  lastFetch : Option ℚ

/-- `{key.key_id: key.key for key in jwk_set.keys if key.key_id}`, onto some keys. A list and an object cannot be keys of it. -/
def indexKeys {Key : Type} : List (Jwk Key) → (String → Option Key) → Except AuthException (String → Option Key)
  | [], keys => .ok keys
  | jwk :: jwks, keys =>
    if jwk.keyId.truthy then
      match jwk.keyId with
      | .str kid => indexKeys jwks (Function.update keys kid (some jwk.key))
      | .arr _ | .obj _ => .error .typeError
      | _ => indexKeys jwks keys
    else indexKeys jwks keys

/-- `_refresh`: the cache it leaves, at the time it ends. -/
def refresh {Key : Type} (jwt : PyJwt Key) (reply : JwksReply) (now : ℚ) : Except AuthException (KeyCache Key) := do
  let body ← httpFetch reply
  let jwks ← jwt.fromDict body
  let keys ← indexKeys jwks fun _ => none
  return ⟨keys, some now⟩

/-- `time.monotonic() - self._last_fetch >= self._min_interval`. -/
def KeyCache.Due {Key : Type} (minInterval : ℚ) (cache : KeyCache Key) (now : ℚ) : Prop :=
  ∀ lastFetch ∈ cache.lastFetch, minInterval ≤ now - lastFetch

instance {Key : Type} (minInterval : ℚ) (cache : KeyCache Key) (now : ℚ) : Decidable (cache.Due minInterval now) :=
  match h : cache.lastFetch with
  | none => isTrue (by simp [KeyCache.Due, h])
  | some t => decidable_of_iff (minInterval ≤ now - t) (by simp [KeyCache.Due, h])

/-- `except (httpx.HTTPError, ValueError, jwt.PyJWKError)`. -/
def AuthException.isExpected : AuthException → Bool
  | .httpError | .valueError | .pyJWKError => true
  | _ => false

/-- The errors of `_signing_key`. -/
def noKid : AuthException := .invalidToken false "token header has no 'kid'"
def keysUnavailable : AuthException := .invalidToken false "signing keys are unavailable"
def unknownKey : AuthException := .invalidToken false "token is signed with an unknown key"

/-- What `_signing_key` raises for what a refresh raised. -/
def AuthException.ofRefresh (e : AuthException) : AuthException := if e.isExpected then keysUnavailable else e

/-! ## One verification -/

/-- What a verification by the JWKS endpoint reads: the keys it looks in first, the cache and the clock when it has the lock, and,
if it refreshes the keys, the reply and the clock after it. -/
structure Readings (Key : Type) where
  seen : String → Option Key
  cache : KeyCache Key
  now : ℚ
  reply : JwksReply
  fetched : ℚ

/-- What the lock of `_signing_key` holds together. -/
def lockedKey {Key : Type} (jwt : PyJwt Key) (minInterval : ℚ) (r : Readings Key) (kid : String) :
    Except AuthException (Option Key) :=
  match r.cache.keys kid with
  | some key => .ok (some key)
  | none =>
    if r.cache.Due minInterval r.now then
      match refresh jwt r.reply r.fetched with
      | .ok cache => .ok (cache.keys kid)
      | .error e => .error e.ofRefresh
    else .ok none

/-- The `kid` of a token. -/
def tokenKid {Key : Type} (jwt : PyJwt Key) (token : String) : Except AuthException String := do
  match ← jwt.unverifiedKid token with
  | none => .error noKid
  | some kid => if kid = "" then .error noKid else return kid

/-- The key for a `kid`: known, or looked for again under the lock. -/
def findKey {Key : Type} (jwt : PyJwt Key) (minInterval : ℚ) (r : Readings Key) (kid : String) : Except AuthException Key :=
  match r.seen kid with
  | some key => .ok key
  | none => do
    match ← lockedKey jwt minInterval r kid with
    | some key => return key
    | none => .error unknownKey

/-- `_JwksTokenVerifier._signing_key`. -/
def signingKey {Key : Type} (jwt : PyJwt Key) (minInterval : ℚ) (r : Readings Key) (token : String) : Except AuthException Key := do
  let kid ← tokenKid jwt token
  findKey jwt minInterval r kid

/-- Where the signing key comes from. -/
inductive TokenVerifier (Key : Type) where
  | jwks (readings : Readings Key)
  | publicKey (key : Key)

/-- `_signing_key`. -/
def TokenVerifier.signingKey {Key : Type} (jwt : PyJwt Key) (minInterval : ℚ) (token : String) :
    TokenVerifier Key → Except AuthException Key
  | .jwks readings => FraudDetection.signingKey jwt minInterval readings token
  | .publicKey key => .ok key

/-- `_TokenVerifier.decode`. -/
def TokenVerifier.decode {Key : Type} (jwt : PyJwt Key) (minInterval : ℚ) (verifier : TokenVerifier Key) (token : String) :
    Except AuthException Claims := do
  let key ← verifier.signingKey jwt minInterval token
  jwt.decode token key

/-! ## The caller -/

/-- `str.isspace`. -/
def isSpace (c : Char) : Bool := isWhiteSpace c || decide (0x1C ≤ c.toNat ∧ c.toNat ≤ 0x1F)

/-- `str.strip()`. -/
def stripSpace (s : String) : String :=
  String.ofList ((s.toList.dropWhile isSpace).reverse.dropWhile isSpace).reverse

/-- `str.split()`. -/
def splitSpace (s : String) : List String := ((s.toList.splitOnP isSpace).filter fun part => !part.isEmpty).map String.ofList

/-- `str(value)`. A string that is no text is known by its printed form: the halves of surrogate pairs as their escapes. -/
def Interpreter.str (py : Interpreter) : Json → String
  | .str s => s
  | .lone s => s.printed
  | value => py.repr value

/-- `claims.get(name)`, where it counts as true. -/
def Claims.given (claims : Claims) (name : String) : Option Json := (Json.lookup claims name).filter Json.truthy

/-- `_parse_scopes`. -/
def parseScopes (py : Interpreter) (claims : Claims) : Finset String :=
  match ((claims.given "scope").orElse fun _ => claims.given "scp").getD (.str "") with
  | .str s => (splitSpace s).toFinset
  | .lone s => (splitSpace s.printed).toFinset
  | .arr items => ((items.map py.str).filter fun part => part ≠ "").toFinset
  | _ => ∅

/-- `AuthenticatedPrincipal`. -/
structure AuthenticatedPrincipal where
  subject : String
  scopes : Finset String
  claims : Claims

/-- `_unauthorized`. -/
def unauthorized (detail : String) (error : Option String) : HTTPException where
  status := 401
  detail := detail
  headers := [("WWW-Authenticate", "Bearer realm=\"fraud-detection\"" ++
    match error with
    | some error => ", error=\"" ++ error ++ "\""
    | none => "")]

/-- `HTTPAuthorizationCredentials`. -/
structure Credentials where
  scheme : String
  credentials : String

/-- The token of a request, if it has one. -/
def bearerToken : Option Credentials → Option String
  | some c => if c.scheme.toLower = "bearer" ∧ stripSpace c.credentials ≠ "" then some (stripSpace c.credentials) else none
  | none => none

/-- How authentication ends when it does not give a principal. -/
inductive AuthFailure where
  | http (error : HTTPException)
  /-- An exception that nothing turns into a response: the request ends with 500. -/
  | uncaught (error : AuthException)
  deriving DecidableEq, Repr

/-- `get_current_principal`, by how the token is decoded. -/
def getCurrentPrincipal (py : Interpreter) (decode : String → Except AuthException Claims) (credentials : Option Credentials) :
    Except AuthFailure AuthenticatedPrincipal :=
  match bearerToken credentials with
  | none => .error (.http (unauthorized "Missing bearer access token." none))
  | some token =>
    match decode token with
    | .error (.invalidToken true _) => .error (.http (unauthorized "Access token has expired." (some "invalid_token")))
    | .error (.invalidToken false _) => .error (.http (unauthorized "Access token is invalid." (some "invalid_token")))
    | .error e => .error (.uncaught e)
    | .ok claims =>
      let subject := stripSpace (py.str ((claims.given "sub").getD (.str "")))
      if subject = "" then
        .error (.http (unauthorized "Access token is missing the subject claim." (some "invalid_token")))
      else .ok ⟨subject, parseScopes py claims, claims⟩

/-! ## Any number of verifications -/

/-- Where a verification is. -/
inductive TokenPhase (Key : Type) where
  | absent
  /-- It has not found its key, and waits for the lock. -/
  | waiting (token kid : String)
  /-- It has the lock. -/
  | locked (token kid : String)
  /-- It has found its key missing again, and a refresh due. -/
  | refreshing (token kid : String)
  /-- It has called `fetch`. -/
  | fetching (token kid : String) (calledAt : ℚ)
  /-- It has its key, and has released the lock. -/
  | verifying (token : String) (key : Key)
  | ended (result : Except AuthException Claims)

/-- The clock, the cache, its lock and the verifications. The code keeps no record of its calls of `fetch`. -/
structure VerifierState (Key : Type) where
  now : ℚ
  cache : KeyCache Key
  lock : Option ℕ
  threads : ℕ → TokenPhase Key
  /-- When `fetch` was called, in that order. -/
  fetches : List ℚ
  /-- When those were called that ended without a key set. -/
  failed : List ℚ

/-- What happens. -/
inductive TokenEvent where
  | tick (duration : ℚ)
  /-- A thread reads the header of a token, and looks for its key. -/
  | verify (thread : ℕ) (token : String)
  | acquire (thread : ℕ)
  /-- A thread that has the lock looks for its key again, and reads the clock. -/
  | check (thread : ℕ)
  | fetch (thread : ℕ)
  /-- A call of `fetch` ends, and the keys are replaced. -/
  | respond (thread : ℕ) (reply : JwksReply)
  | decode (thread : ℕ)

section Steps

variable {Key : Type} (jwt : PyJwt Key) (minInterval : ℚ)

/-- A thread goes on. -/
def VerifierState.goTo (s : VerifierState Key) (c : ℕ) (phase : TokenPhase Key) : VerifierState Key :=
  { s with threads := Function.update s.threads c phase }

/-- A thread goes on, and releases the lock. -/
def VerifierState.release (s : VerifierState Key) (c : ℕ) (phase : TokenPhase Key) : VerifierState Key :=
  { s with threads := Function.update s.threads c phase, lock := none }

/-- Where a thread goes on with the key it has found, or without one. -/
def TokenPhase.ofKey (token : String) : Option Key → TokenPhase Key
  | some key => .verifying token key
  | none => .ended (.error unknownKey)

/-- Where a thread goes on from the header of its token. -/
def TokenPhase.ofKid (keys : String → Option Key) (token : String) : Except AuthException String → TokenPhase Key
  | .error e => .ended (.error e)
  | .ok kid =>
    match keys kid with
    | some key => .verifying token key
    | none => .waiting token kid

/-- A thread that has the lock looks for its key again. -/
def VerifierState.check (s : VerifierState Key) (c : ℕ) (token kid : String) : VerifierState Key :=
  match s.cache.keys kid with
  | some key => s.release c (.verifying token key)
  | none =>
    if s.cache.Due minInterval s.now then s.goTo c (.refreshing token kid)
    else s.release c (.ended (.error unknownKey))

/-- A call of `fetch` ends. -/
def VerifierState.respond (s : VerifierState Key) (c : ℕ) (token kid : String) (calledAt : ℚ) (reply : JwksReply) :
    VerifierState Key :=
  match refresh jwt reply s.now with
  | .ok cache => { s.release c (TokenPhase.ofKey token (cache.keys kid)) with cache }
  | .error e => { s.release c (.ended (.error e.ofRefresh)) with failed := s.failed ++ [calledAt] }

/-- What a step does. -/
def tokenStep (s : VerifierState Key) : TokenEvent → Option (VerifierState Key)
  | .tick duration => if 0 ≤ duration then some { s with now := s.now + duration } else none
  | .verify c token =>
    match s.threads c with
    | .absent => some (s.goTo c (TokenPhase.ofKid s.cache.keys token (tokenKid jwt token)))
    | _ => none
  | .acquire c =>
    match s.threads c, s.lock with
    | .waiting token kid, none => some { s.goTo c (.locked token kid) with lock := some c }
    | _, _ => none
  | .check c =>
    match s.threads c with
    | .locked token kid => some (s.check minInterval c token kid)
    | _ => none
  | .fetch c =>
    match s.threads c with
    | .refreshing token kid => some { s.goTo c (.fetching token kid s.now) with fetches := s.fetches ++ [s.now] }
    | _ => none
  | .respond c reply =>
    match s.threads c with
    | .fetching token kid calledAt => some (s.respond jwt c token kid calledAt reply)
    | _ => none
  | .decode c =>
    match s.threads c with
    | .verifying token key => some (s.goTo c (.ended (jwt.decode token key)))
    | _ => none

/-- The threads that verify tokens by one key set, from any time on, before any of them. -/
def verifying : StepSystem (VerifierState Key) TokenEvent where
  start s := ∃ now, s = ⟨now, ⟨fun _ => none, none⟩, none, fun _ => .absent, [], []⟩
  step := tokenStep jwt minInterval

end Steps

end FraudDetection
