import FraudDetection.Api
import FraudDetection.Lib.Except

/-!
# Requests and their responses

What a response is made of, which exceptions a request can end with, and what the admission of a request says of its caller.
-/

namespace FraudDetection

/-! ## The ids of a response -/

/-- The ids of a request. -/
def HttpRequest.requestId (request : HttpRequest) : PyStr :=
  orNewId (sanitiseCorrelationId (request.headers.get requestIdHeader)) request.requestUuid

def HttpRequest.correlationId (request : HttpRequest) : PyStr :=
  orNewId (sanitiseCorrelationId (request.headers.get correlationIdHeader)) request.correlationUuid

/-- The context a request is handled in. -/
def HttpRequest.context (request : HttpRequest) : LogContext :=
  ⟨some request.correlationId, some request.correlationId, some request.requestId⟩

theorem respond_eq (request : HttpRequest) (result : Except ApiException ApiResponse) :
    request.respond result = ⟨⟨(answer request.context result).statusCode, ((answer request.context result).headers.set
      requestIdHeader request.requestId).set correlationIdHeader request.correlationId⟩, (answer request.context result).body⟩ := rfl

@[simp] theorem respond_statusCode (request : HttpRequest) (result : Except ApiException ApiResponse) :
    (request.respond result).statusCode = (answer request.context result).statusCode := rfl

@[simp] theorem respond_body (request : HttpRequest) (result : Except ApiException ApiResponse) :
    (request.respond result).body = (answer request.context result).body := rfl

namespace HttpHeaders

/-- A header that was set is read back. -/
theorem get_set_self (headers : HttpHeaders) (name : String) (value : PyStr) : (headers.set name value).get name = .str value := by
  induction headers with
  | nil => simp only [set, get, List.find?_cons, decide_true]
  | cons header headers ih =>
    simp only [set]
    split
    · simp only [get, List.find?_cons, decide_true]
    · rename_i hne
      simp only [get, List.find?_cons, decide_eq_false hne] at ih ⊢
      exact ih

/-- The other headers are as they were. -/
theorem get_set_other (headers : HttpHeaders) {name other : String} (value : PyStr) (h : other ≠ name) :
    (headers.set name value).get other = headers.get other := by
  induction headers with
  | nil => simp only [set, get, List.find?_cons, List.find?_nil, decide_eq_false (Ne.symm h)]
  | cons header headers ih =>
    simp only [set]
    split
    · rename_i heq
      have hne : ¬header.1 = other := fun hother => h (hother.symm.trans heq)
      have hfilter : (headers.filter fun header => header.1 ≠ name).find? (fun header => header.1 = other) =
          headers.find? fun header => header.1 = other := by
        rw [List.find?_filter]
        congr 1
        funext header
        by_cases ho : header.1 = other
        · simp [ho, h]
        · simp [ho]
      simp only [get, List.find?_cons, decide_eq_false (Ne.symm h), decide_eq_false hne, hfilter]
    · by_cases ho : header.1 = other
      · simp only [get, List.find?_cons, decide_eq_true ho]
      · simp only [get, List.find?_cons, decide_eq_false ho] at ih ⊢
        exact ih

end HttpHeaders

/-- A header of a response, unless it is one of the ids. -/
theorem respond_get (request : HttpRequest) (result : Except ApiException ApiResponse) {name : String}
    (hr : name ≠ requestIdHeader) (hc : name ≠ correlationIdHeader) :
    (request.respond result).headers.get name = (answer request.context result).headers.get name := by
  rw [respond_eq]
  exact (HttpHeaders.get_set_other _ _ hc).trans (HttpHeaders.get_set_other _ _ hr)

/-! ## The exceptions of a request -/

/-- An exception has a header. -/
def HTTPException.Carries (error : HTTPException) (name : String) : Prop :=
  ∃ value, (error.headers.map fun header => (headerName header.1, PyStr.ofString header.2)).find? (fun header => header.1 = name) =
    some (name, value)

/-- The statuses that a request may be refused with, and the headers that go with them. Only `/ready` says 503 of itself. -/
structure HTTPException.Documented (error : HTTPException) : Prop where
  status : error.status ∈ errorCodes.map (·.1)
  available : error.status ≠ 503
  challenge : error.status = 401 ∨ error.status = 403 → error.Carries "www-authenticate"
  retryAfter : error.status = 429 → error.Carries "retry-after"

/-- A row does not load, and this is what is said of it. -/
def CorruptRow (sha : Sha256) (py : Interpreter) (rows : List RuleSetVersionRecord) (message : String) : Prop :=
  ∃ row ∈ rows, ∃ error, ruleSetFromRecord sha py row = .error error ∧ error.message = some message

/-- A request may end with this exception, where stored versions that do not load are spoken of like this. -/
def ApiException.Documented (Corrupt : String → Prop) : ApiException → Prop
  | .http error => error.Documented
  | .corruptRuleSet message => Corrupt message
  | _ => True

namespace ApiAux

variable {Corrupt : String → Prop}

/-- A refusal with one header. -/
theorem carries_single {status : ℕ} {detail name value lower : String} (h : headerName name = lower) :
    HTTPException.Carries ⟨status, detail, [(name, value)]⟩ lower :=
  ⟨PyStr.ofString value, by rw [← h, List.map_singleton, List.find?_singleton, if_pos (decide_eq_true rfl)]⟩

/-- A refusal whose headers say nothing about it. -/
theorem documented_plain {status : ℕ} {detail : String} {headers : List (String × String)} (h : status ∈ [400, 404, 405]) :
    HTTPException.Documented ⟨status, detail, headers⟩ where
  status := (by decide : ∀ s ∈ [400, 404, 405], s ∈ errorCodes.map (·.1)) status h
  available := by
    rintro rfl
    exact absurd h (by decide)
  challenge := by
    rintro (rfl | rfl)
    all_goals exact absurd h (by decide)
  retryAfter := by
    rintro rfl
    exact absurd h (by decide)

theorem documented_unauthorized (detail : String) (error : Option String) : (unauthorized detail error).Documented where
  status := by simp [unauthorized, errorCodes]
  available := by simp [unauthorized]
  challenge _ := carries_single (by decide)
  retryAfter h := by cases h

theorem documented_insufficientScope (required : String) : (insufficientScope required).Documented where
  status := by simp [insufficientScope, errorCodes]
  available := by simp [insufficientScope]
  challenge _ := carries_single (by decide)
  retryAfter h := by cases h

theorem documented_tooManyRequests (retryAfter : ℤ) : (tooManyRequests retryAfter).Documented where
  status := by simp [tooManyRequests, errorCodes]
  available := by simp [tooManyRequests]
  challenge h := by rcases h with h | h <;> cases h
  retryAfter _ := carries_single (by decide)

theorem documented_loadError {error : LoadError} (h : ∀ message, error.message = some message → Corrupt message) :
    error.toApiException.Documented Corrupt := by
  cases error with
  | python e => trivial
  | changed label => exact h _ rfl
  | invalid label reason => exact h _ rfl
  | dryRun label reason => exact h _ rfl

theorem documented_scoreError (error : ScoreError) : error.toApiException.Documented Corrupt := by
  unfold ScoreError.toApiException
  split <;> trivial

/-! ### Refusals -/

/-- An authentication fails with a documented refusal, or with an exception that has no handler. -/
theorem currentPrincipal_documented (py : Interpreter) (decode : String → Except AuthException Claims)
    (credentials : Option Credentials) :
    (getCurrentPrincipal py decode credentials).FailsOnly fun e => ∀ error, e = .http error → error.Documented := by
  intro e he error heq
  subst heq
  unfold getCurrentPrincipal at he
  split at he
  · cases he
    exact documented_unauthorized _ _
  · split at he
    · cases he
      exact documented_unauthorized _ _
    · cases he
      exact documented_unauthorized _ _
    · cases he
    · dsimp only at he
      split at he
      · cases he
        exact documented_unauthorized _ _
      · cases he

theorem requireScope_documented (py : Interpreter) (required : String) (caller : Caller) :
    (requireScope py required caller).FailsOnly (ApiException.Documented Corrupt) := by
  intro e he
  unfold requireScope at he
  split at he
  · rename_i error hp
    cases he
    exact currentPrincipal_documented py _ _ _ hp error rfl
  · cases he
    trivial
  · split at he
    · split at he
      · rename_i error hlimit
        cases he
        obtain ⟨outcome, -, hraised⟩ := Option.bind_eq_some_iff.mp hlimit
        cases outcome with
        | allowed => cases hraised
        | failedOpen => cases hraised
        | rejected retryAfter =>
          cases hraised
          exact documented_tooManyRequests retryAfter
      · cases he
    · cases he
      exact documented_insufficientScope required

theorem read_documented {α : Type} (body : RequestBody α) : body.read.FailsOnly (ApiException.Documented Corrupt) := by
  intro e he
  cases body with
  | undecodable position =>
    cases he
    trivial
  | unreadable =>
    cases he
    exact documented_plain (by decide)
  | decoded value => cases he

theorem validated_documented {α : Type} (checked : Checked α) : (validated checked).FailsOnly (ApiException.Documented Corrupt) := by
  intro e he
  cases checked with
  | ok a => cases he
  | error errors =>
    cases he
    trivial

theorem query_documented (query : TransactionsQuery) : query.action.FailsOnly (ApiException.Documented Corrupt) := by
  unfold TransactionsQuery.action
  refine Except.failsOnly_bind.mpr ⟨validated_documented _, ?_⟩
  rintro ⟨⟨⟨⟨⟨⟨⟨userId, category⟩, isFraud⟩, verdict⟩, occurredFrom⟩, occurredTo⟩, limit⟩, cursor⟩ -
  dsimp only
  split
  · exact Except.failsOnly_ok _
  · exact Except.failsOnly_ok _
  · split
    · exact Except.failsOnly_ok _
    · exact (Except.failsOnly_error _).mpr (documented_plain (by decide))
    · exact (Except.failsOnly_error _).mpr trivial
    · exact (Except.failsOnly_error _).mpr trivial

theorem createAction_documented (sha : Sha256) (py : Interpreter) (key : String) (body : CreateRuleSetVersionRequest)
    (principal : AuthenticatedPrincipal) : (createAction sha py key body principal).FailsOnly (ApiException.Documented Corrupt) := by
  intro e he
  unfold createAction at he
  split at he
  · cases he
    trivial
  · cases he
    trivial
  · cases he

/-- A request is refused only with a documented exception. -/
theorem accept_documented (sha : Sha256) (py : Interpreter) (reader : EventReader) (settings : ScopeSettings) (request : HttpRequest) :
    (request.accept sha py reader settings).FailsOnly (ApiException.Documented Corrupt) := by
  unfold HttpRequest.accept
  split
  · exact (Except.failsOnly_error _).mpr (documented_plain (by decide))
  · exact (Except.failsOnly_error _).mpr (documented_plain (by decide))
  · exact Except.failsOnly_ok _
  · split
    · exact Except.failsOnly_ok _
    · exact Except.failsOnly_ok _
    · exact Except.failsOnly_ok _
    · refine Except.failsOnly_bind.mpr ⟨requireScope_documented py _ _, fun _ _ => ?_⟩
      exact Except.failsOnly_bind.mpr ⟨validated_documented _, fun _ _ => Except.failsOnly_ok _⟩
    · exact Except.failsOnly_bind.mpr ⟨requireScope_documented py _ _, fun _ _ => query_documented _⟩
    · refine Except.failsOnly_bind.mpr ⟨requireScope_documented py _ _, fun _ _ => ?_⟩
      exact Except.failsOnly_bind.mpr ⟨validated_documented _, fun _ _ => Except.failsOnly_ok _⟩
    · refine Except.failsOnly_bind.mpr ⟨requireScope_documented py _ _, fun _ _ => ?_⟩
      exact Except.failsOnly_bind.mpr ⟨validated_documented _, fun _ _ => Except.failsOnly_ok _⟩
    · refine Except.failsOnly_bind.mpr ⟨requireScope_documented py _ _, fun _ _ => ?_⟩
      exact Except.failsOnly_bind.mpr ⟨validated_documented _, fun _ _ => Except.failsOnly_ok _⟩
    · refine Except.failsOnly_bind.mpr ⟨read_documented _, fun _ _ => ?_⟩
      refine Except.failsOnly_bind.mpr ⟨requireScope_documented py _ _, fun _ _ => ?_⟩
      exact Except.failsOnly_bind.mpr ⟨validated_documented _, fun _ _ => createAction_documented sha py _ _ _⟩
    · refine Except.failsOnly_bind.mpr ⟨read_documented _, fun _ _ => ?_⟩
      refine Except.failsOnly_bind.mpr ⟨requireScope_documented py _ _, fun _ _ => ?_⟩
      exact Except.failsOnly_bind.mpr ⟨validated_documented _, fun _ _ => Except.failsOnly_ok _⟩

/-! ### Results of routes -/

/-- What a route returns, with its status, or raises, unless it is `/ready`. -/
def Expected (Corrupt : String → Prop) (status : ℕ) : Except ApiException ApiResponse → Prop
  | .ok response => response.statusCode = status ∧ ∀ error, response.body ≠ .error error
  | .error exc => exc.Documented Corrupt

/-- What is documented stays so when more rows fail to load. -/
theorem Expected.mono {Corrupt' : String → Prop} (hmono : ∀ message, Corrupt message → Corrupt' message) {status : ℕ}
    {result : Except ApiException ApiResponse} (h : Expected Corrupt status result) : Expected Corrupt' status result := by
  cases result with
  | ok response => exact h
  | error exc =>
    cases exc with
    | http error => exact h
    | corruptRuleSet message => exact hmono message h
    | _ => trivial

theorem expected_ok {body : ResponseBody} (h : ∀ error, body ≠ .error error) : Expected Corrupt 200 (.ok (okResponse body)) := ⟨rfl, h⟩

theorem expected_transaction (rows : List TransactionRecord) (transactionId : Uuid) :
    Expected Corrupt 200 (Api.getTransactionById rows transactionId) := by
  unfold Api.getTransactionById
  split
  · trivial
  · exact expected_ok nofun

theorem expected_transactions (naive : NaiveTimes) (rows : List TransactionRecord) (filters : TransactionFilters) (limit : ℤ)
    (cursor : Option PageCursor) : Expected Corrupt 200 (Api.listTransactionDecisions naive rows filters limit cursor) := by
  unfold Api.listTransactionDecisions
  split
  · trivial
  · trivial
  · exact expected_ok nofun

section

variable (sha : Sha256) (py : Interpreter) (rows : List RuleSetVersionRecord) (key : String)

/-- When the rows of a page do not all load, one of them does not. -/
theorem mapM_corrupt {records : List RuleSetVersionRecord} {error : LoadError}
    (h : records.mapM (ruleSetFromRecord sha py) = .error error) : ∃ row ∈ records, ruleSetFromRecord sha py row = .error error := by
  induction records with
  | nil => cases h
  | cons record records ih =>
    rw [List.mapM_cons] at h
    rcases Except.bind_eq_error.mp h with h | ⟨first, -, h⟩
    · exact ⟨record, List.mem_cons_self, h⟩
    · rcases Except.bind_eq_error.mp h with h | ⟨rest, -, h⟩
      · obtain ⟨row, hrow, hload⟩ := ih h
        exact ⟨row, List.mem_cons_of_mem record hrow, hload⟩
      · cases h

theorem expected_versions (limit : ℤ) (beforeVersion : Option ℤ) :
    Expected (CorruptRow sha py rows) 200 (Api.listVersions sha py rows key limit beforeVersion) := by
  unfold Api.listVersions
  split
  · trivial
  · split
    · trivial
    · rename_i error hlist
      refine documented_loadError fun message hmessage => ?_
      unfold listRuleSetVersions at hlist
      split at hlist
      · cases hlist
      · split at hlist
        · cases hlist
        · dsimp only at hlist
          cases hload : (((rows.filter (·.ruleSetKey = key)).filter fun record =>
              beforeVersion.all fun before => decide ((record.version : ℤ) < before)).mergeSort
                fun left right => decide (right.version ≤ left.version)).take limit.toNat |>.mapM (ruleSetFromRecord sha py) with
          | ok found =>
            rw [hload] at hlist
            cases hlist
          | error e =>
            rw [hload] at hlist
            cases hlist
            obtain ⟨row, hrow, hrowError⟩ := mapM_corrupt sha py hload
            have hsorted := List.mem_mergeSort.mp (List.mem_of_mem_take hrow)
            exact ⟨row, List.mem_of_mem_filter (List.mem_of_mem_filter hsorted), _, hrowError, hmessage⟩
    · split
      · trivial
      · exact expected_ok nofun

theorem latestRuleSet_documented : (Api.latestRuleSet sha py rows key).FailsOnly (ApiException.Documented (CorruptRow sha py rows)) := by
  intro e he
  unfold Api.latestRuleSet at he
  split at he
  · cases he
  · rename_i error hlatest
    cases he
    refine documented_loadError fun message hmessage => ?_
    unfold getLatestRuleSet at hlatest
    split at hlatest
    · cases hlatest
    · rename_i record hrecord
      split at hlatest
      · cases hlatest
      · rename_i cause hload
        cases hlatest
        exact ⟨record, List.mem_of_mem_filter (List.argmax_mem hrecord), _, hload, hmessage⟩
  · cases he
    trivial

theorem getRuleSetVersion_documented (version : ℤ) :
    (Api.getRuleSetVersion sha py rows key version).FailsOnly (ApiException.Documented (CorruptRow sha py rows)) := by
  intro e he
  unfold Api.getRuleSetVersion at he
  split at he
  · cases he
    trivial
  · split at he
    · cases he
      trivial
    · rename_i record hfind
      split at he
      · cases he
      · rename_i error hload
        cases he
        exact documented_loadError fun message hmessage => ⟨record, List.mem_of_find?_eq_some hfind, error, hload, hmessage⟩

theorem expected_active : Expected (CorruptRow sha py rows) 200 (Api.getActiveVersion sha py rows key) := by
  unfold Api.getActiveVersion
  cases h : Api.latestRuleSet sha py rows key with
  | ok ruleSet => exact expected_ok nofun
  | error e => exact latestRuleSet_documented sha py rows key e h

theorem expected_version (version : ℤ) : Expected (CorruptRow sha py rows) 200 (Api.getVersion sha py rows key version) := by
  unfold Api.getVersion
  cases h : Api.getRuleSetVersion sha py rows key version with
  | ok ruleSet => exact expected_ok nofun
  | error e => exact getRuleSetVersion_documented sha py rows key version e h

end

theorem expected_scored (rows : List TransactionRecord) (ruleSet : RuleSet) (now : AwareDatetime) (request : EvaluateRequest) :
    Expected Corrupt 200 (Api.scored rows ruleSet now request) := by
  unfold Api.scored
  split
  · exact documented_scoreError _
  · exact expected_ok nofun

theorem expected_created {key : String} {raised : PyException} {phase : CreatePhase} {result : Except ApiException ApiResponse}
    (h : Api.createVersion key raised phase = some result)
    (hcorrupt : ∀ error, phase = .raised (.corrupt error) → ∀ message, error.message = some message → Corrupt message) :
    Expected Corrupt 201 result := by
  unfold Api.createVersion at h
  split at h
  · cases h
    exact ⟨rfl, nofun⟩
  · cases h
    trivial
  · cases h
    trivial
  · cases h
    trivial
  · cases h
    exact documented_loadError (hcorrupt _ rfl)
  · cases h

/-! ### Admission -/

/-- What a scope that was required says of the caller. -/
theorem requireScope_ok {py : Interpreter} {required : String} {caller : Caller} {principal : AuthenticatedPrincipal}
    (h : requireScope py required caller = .ok principal) :
    getCurrentPrincipal py caller.decode caller.credentials = .ok principal ∧ required ∈ principal.scopes ∧
      caller.limit.bind RateOutcome.raised = none := by
  unfold requireScope at h
  split at h
  · cases h
  · cases h
  · rename_i p hp
    split at h
    · rename_i hscope
      split at h
      · cases h
      · rename_i hlimit
        cases h
        exact ⟨hp, hscope, hlimit⟩
    · cases h

theorem validated_ok {α : Type} {checked : Checked α} {a : α} (h : validated checked = .ok a) : checked = .ok a := by
  cases checked with
  | ok b =>
    cases h
    rfl
  | error errors => cases h

theorem query_ok {query : TransactionsQuery} {action : Action} (h : query.action = .ok action) :
    ∃ filters limit cursor, action = .listTransactions filters limit cursor := by
  unfold TransactionsQuery.action at h
  obtain ⟨⟨⟨⟨⟨⟨⟨⟨userId, category⟩, isFraud⟩, verdict⟩, occurredFrom⟩, occurredTo⟩, limit⟩, cursor⟩, -, h⟩ := Except.bind_eq_ok.mp h
  dsimp only at h
  split at h
  · cases h
    exact ⟨_, _, _, rfl⟩
  · cases h
    exact ⟨_, _, _, rfl⟩
  · split at h
    · cases h
      exact ⟨_, _, _, rfl⟩
    · cases h
    · cases h
    · cases h

theorem createAction_ok {sha : Sha256} {py : Interpreter} {key : String} {body : CreateRuleSetVersionRequest}
    {principal : AuthenticatedPrincipal} {action : Action} (h : createAction sha py key body principal = .ok action) :
    ∃ definition, parseRuleSetDefinition py body.definition = .ok definition ∧ action = .createVersion
      ⟨key, definition, contentHash sha definition, body.description, principal.subject, body.expectedCurrentVersion⟩ := by
  unfold createAction at h
  split at h
  · cases h
  · cases h
  · rename_i definition hparse
    cases h
    exact ⟨definition, hparse, rfl⟩

/-- A key that is valid is what was given. -/
theorem checkRuleSetKey_ok {given key : String} (h : checkRuleSetKey given = .ok key) : key = given := by
  unfold checkRuleSetKey at h
  have h := Checked.at_eq_ok.mp (Checked.at_eq_ok.mp h)
  split at h
  · cases h
    rfl
  · cases h

section

variable {sha : Sha256} {py : Interpreter} {reader : EventReader} {settings : ScopeSettings} {request : HttpRequest}

/-- A route that has a scope is entered only by a caller that has passed it. -/
theorem accept_scope {action : Action} (h : request.accept sha py reader settings = .ok action) {route : Route} {scope : String}
    (hroute : request.routed = .route route) (hscope : route.scope settings = some scope) :
    ∃ principal, requireScope py scope request.caller = .ok principal := by
  unfold HttpRequest.accept at h
  rw [hroute] at h
  cases route with
  | live => cases hscope
  | ready => cases hscope
  | metrics => cases hscope
  | getTransactionById transactionId =>
    cases hscope
    obtain ⟨principal, hprincipal, -⟩ := Except.bind_eq_ok.mp h
    exact ⟨principal, hprincipal⟩
  | listTransactionDecisions query =>
    cases hscope
    obtain ⟨principal, hprincipal, -⟩ := Except.bind_eq_ok.mp h
    exact ⟨principal, hprincipal⟩
  | listVersions key limit beforeVersion =>
    cases hscope
    obtain ⟨principal, hprincipal, -⟩ := Except.bind_eq_ok.mp h
    exact ⟨principal, hprincipal⟩
  | getActiveVersion key =>
    cases hscope
    obtain ⟨principal, hprincipal, -⟩ := Except.bind_eq_ok.mp h
    exact ⟨principal, hprincipal⟩
  | getVersion key version =>
    cases hscope
    obtain ⟨principal, hprincipal, -⟩ := Except.bind_eq_ok.mp h
    exact ⟨principal, hprincipal⟩
  | createVersion key body =>
    cases hscope
    obtain ⟨_, -, h⟩ := Except.bind_eq_ok.mp h
    obtain ⟨principal, hprincipal, -⟩ := Except.bind_eq_ok.mp h
    exact ⟨principal, hprincipal⟩
  | evaluate key body =>
    cases hscope
    obtain ⟨_, -, h⟩ := Except.bind_eq_ok.mp h
    obtain ⟨principal, hprincipal, -⟩ := Except.bind_eq_ok.mp h
    exact ⟨principal, hprincipal⟩

/-- Which routes ask for what. -/
inductive LeadsTo : Routed → Action → Prop where
  | redirect (location : String) : LeadsTo (.redirect location) (.redirect location)
  | live : LeadsTo (.route .live) .live
  | ready : LeadsTo (.route .ready) .ready
  | metrics : LeadsTo (.route .metrics) .metrics
  | getTransaction (given : Checked Uuid) (transactionId : Uuid) :
      LeadsTo (.route (.getTransactionById given)) (.getTransaction transactionId)
  | listTransactions (query : TransactionsQuery) (filters : TransactionFilters) (limit : ℤ) (cursor : Option PageCursor) :
      LeadsTo (.route (.listTransactionDecisions query)) (.listTransactions filters limit cursor)
  | listVersions (given key : String) (givenLimit : Option (Checked ℤ)) (givenBefore : Checked (Option ℤ)) (limit : ℤ)
      (beforeVersion : Option ℤ) : LeadsTo (.route (.listVersions given givenLimit givenBefore)) (.listVersions key limit beforeVersion)
  | getActiveVersion (given key : String) : LeadsTo (.route (.getActiveVersion given)) (.getActiveVersion key)
  | getVersion (given key : String) (givenVersion : Checked ℤ) (version : ℤ) :
      LeadsTo (.route (.getVersion given givenVersion)) (.getVersion key version)
  | createVersion (given : String) (body : RequestBody Json) (call : CreateCall) :
      LeadsTo (.route (.createVersion given body)) (.createVersion call)
  | evaluate (given key : String) (body : RequestBody DecimalJson) (request : EvaluateRequest) :
      LeadsTo (.route (.evaluate given body)) (.evaluate key request)

theorem accept_leadsTo {action : Action} (h : request.accept sha py reader settings = .ok action) : LeadsTo request.routed action := by
  unfold HttpRequest.accept at h
  split at h
  · cases h
  · cases h
  · rename_i location hrouted
    cases h
    rw [hrouted]
    exact .redirect location
  · rename_i route hrouted
    rw [hrouted]
    split at h
    · cases h
      exact .live
    · cases h
      exact .ready
    · cases h
      exact .metrics
    · obtain ⟨_, -, h⟩ := Except.bind_eq_ok.mp h
      obtain ⟨_, -, h⟩ := Except.bind_eq_ok.mp h
      cases h
      exact .getTransaction _ _
    · obtain ⟨_, -, h⟩ := Except.bind_eq_ok.mp h
      obtain ⟨filters, limit, cursor, rfl⟩ := query_ok h
      exact .listTransactions _ _ _ _
    · obtain ⟨_, -, h⟩ := Except.bind_eq_ok.mp h
      obtain ⟨_, -, h⟩ := Except.bind_eq_ok.mp h
      cases h
      exact .listVersions _ _ _ _ _ _
    · obtain ⟨_, -, h⟩ := Except.bind_eq_ok.mp h
      obtain ⟨_, -, h⟩ := Except.bind_eq_ok.mp h
      cases h
      exact .getActiveVersion _ _
    · obtain ⟨_, -, h⟩ := Except.bind_eq_ok.mp h
      obtain ⟨_, -, h⟩ := Except.bind_eq_ok.mp h
      cases h
      exact .getVersion _ _ _ _
    · obtain ⟨_, -, h⟩ := Except.bind_eq_ok.mp h
      obtain ⟨_, -, h⟩ := Except.bind_eq_ok.mp h
      obtain ⟨_, -, h⟩ := Except.bind_eq_ok.mp h
      obtain ⟨definition, -, rfl⟩ := createAction_ok h
      exact .createVersion _ _ _
    · obtain ⟨_, -, h⟩ := Except.bind_eq_ok.mp h
      obtain ⟨_, -, h⟩ := Except.bind_eq_ok.mp h
      obtain ⟨_, -, h⟩ := Except.bind_eq_ok.mp h
      cases h
      exact .evaluate _ _ _ _

/-- Only a request to `/ready` asks what it asks. -/
theorem accept_ready (h : request.accept sha py reader settings = .ok .ready) : request.routed = .route .ready := by
  have hleads := accept_leadsTo h
  generalize request.routed = routed at hleads ⊢
  cases hleads with
  | ready => rfl

/-- Only a request that Starlette redirects is redirected. -/
theorem accept_redirect {location : String} (h : request.accept sha py reader settings = .ok (.redirect location)) :
    request.routed = .redirect location := by
  have hleads := accept_leadsTo h
  generalize request.routed = routed at hleads ⊢
  cases hleads with
  | redirect => rfl

/-- What a request that publishes has sent, and who has sent it. -/
theorem accept_create {call : CreateCall} (h : request.accept sha py reader settings = .ok (.createVersion call)) :
    ∃ json body principal, request.routed = .route (.createVersion call.key (.decoded json)) ∧
      CreateRuleSetVersionRequest.modelValidate py json = .ok body ∧
      requireScope py settings.scopeRulesWrite request.caller = .ok principal ∧
      parseRuleSetDefinition py body.definition = .ok call.definition ∧ call.definitionHash = contentHash sha call.definition ∧
      call.description = body.description ∧ call.createdBy = principal.subject ∧
      call.expectedCurrentVersion = body.expectedCurrentVersion := by
  obtain ⟨key, body, hrouted⟩ : ∃ key body, request.routed = .route (.createVersion key body) := by
    have hleads := accept_leadsTo h
    generalize request.routed = routed at hleads ⊢
    cases hleads with
    | createVersion key body => exact ⟨key, body, rfl⟩
  unfold HttpRequest.accept at h
  rw [hrouted] at h
  obtain ⟨json, hread, h⟩ := Except.bind_eq_ok.mp h
  obtain ⟨principal, hscope, h⟩ := Except.bind_eq_ok.mp h
  obtain ⟨⟨key', sent⟩, hvalid, h⟩ := Except.bind_eq_ok.mp h
  obtain ⟨definition, hparse, h⟩ := createAction_ok h
  cases h
  obtain ⟨hkey, hbody⟩ := Checked.both_eq_ok.mp (validated_ok hvalid)
  cases checkRuleSetKey_ok hkey
  have hdecoded : body = .decoded json := by
    cases body with
    | undecodable position => cases hread
    | unreadable => cases hread
    | decoded value =>
      cases hread
      rfl
  rw [hrouted, hdecoded]
  exact ⟨json, sent, principal, rfl, hbody, hscope, hparse, rfl, rfl, rfl, rfl⟩

end

end ApiAux

end FraudDetection
