import FraudDetection.Lemmas.Cache
import FraudDetection.Lemmas.Serving
import FraudDetection.Theorems.Parsing
import FraudDetection.Theorems.Staleness

/-!
# What a client of the API can rely on

A response carries the ids of its request and, unless it is a success, the one shape of errors. A row of `rule_set_versions` that a
request has stored is what a caller with the scope has sent, and a publish that was refused has stored nothing. A version that any
response has shown stays as it is, and the active version only goes forward.
-/

namespace FraudDetection

/-! ## Every response -/

/-- A response has the ids of its request. It is a success, the redirect of a path with a slash too many or too few, or an error with a
code of the table; and what a client is to do next stands in its headers. An internal error says nothing of its cause, unless one of the
stored versions does not load. -/
structure ApiResponse.Standard (sha : Sha256) (py : Interpreter) (rows : List RuleSetVersionRecord) (request : HttpRequest)
    (response : ApiResponse) : Prop where
  requestId : response.headers.get requestIdHeader = .str request.requestId
  correlationId : response.headers.get correlationIdHeader = .str request.correlationId
  body : ((response.statusCode = 200 ∨ response.statusCode = 201) ∧ ∀ error, response.body ≠ .error error) ∨
    (response.statusCode = 307 ∧ response.body = .empty ∧ ∃ location, request.routed = .redirect location ∧
      response.headers.get "location" = .str (PyStr.ofString location)) ∨
    ∃ error, response.body = .error error ∧ error.correlationId = some request.correlationId ∧
      ((response.statusCode, error.code) ∈ errorCodes ∨
        response.statusCode = 500 ∧ error.code = "internal_error" ∧ error.details = [] ∧
          (error.message = "An internal error occurred." ∨
            ∃ row ∈ rows, ∃ cause, ruleSetFromRecord sha py row = .error cause ∧ cause.message = some error.message))
  challenge : response.statusCode = 401 ∨ response.statusCode = 403 →
    ∃ value, response.headers.get "www-authenticate" = .str value
  retryAfter : response.statusCode = 429 ∨ response.statusCode = 503 ∧ request.routed ≠ .route .ready →
    ∃ value, response.headers.get "retry-after" = .str value

namespace ServingAux

open ApiAux

variable {sha : Sha256} {py : Interpreter} {rows : List RuleSetVersionRecord}

/-- A status that has a code is looked up to it. -/
theorem lookup_code : ∀ status ∈ errorCodes.map (·.1), (status, (errorCodes.lookup status).getD "error") ∈ errorCodes := by decide

theorem respond_requestId (request : HttpRequest) (result : Except ApiException ApiResponse) :
    (request.respond result).headers.get requestIdHeader = .str request.requestId := by
  rw [respond_eq]
  exact (HttpHeaders.get_set_other _ _ (by decide)).trans (HttpHeaders.get_set_self _ _ _)

theorem respond_correlationId (request : HttpRequest) (result : Except ApiException ApiResponse) :
    (request.respond result).headers.get correlationIdHeader = .str request.correlationId := by
  rw [respond_eq]
  exact HttpHeaders.get_set_self _ _ _

/-- A header of a refusal is a header of the response to it. -/
theorem respond_carries {request : HttpRequest} {error : HTTPException} {name : String} (h : error.Carries name)
    (hr : name ≠ requestIdHeader) (hc : name ≠ correlationIdHeader) :
    ∃ value, (request.respond (.error (.http error))).headers.get name = .str value := by
  obtain ⟨value, hfind⟩ := h
  refine ⟨value, (respond_get request _ hr hc).trans ?_⟩
  change HttpHeaders.get (error.headers.map fun header => (headerName header.1, PyStr.ofString header.2)) name = _
  simp only [HttpHeaders.get, hfind]

/-- A response to a refusal with a status of the table. -/
theorem standard_http {request : HttpRequest} {error : HTTPException} (hstatus : error.status ∈ errorCodes.map (·.1))
    (hchallenge : error.status = 401 ∨ error.status = 403 → error.Carries "www-authenticate")
    (hretry : error.status = 429 ∨ error.status = 503 ∧ request.routed ≠ .route .ready → error.Carries "retry-after") :
    (request.respond (.error (.http error))).Standard sha py rows request where
  requestId := respond_requestId request _
  correlationId := respond_correlationId request _
  body := .inr (.inr ⟨_, rfl, rfl, .inl (lookup_code error.status hstatus)⟩)
  challenge h := respond_carries (hchallenge h) (by decide) (by decide)
  retryAfter h := respond_carries (hretry h) (by decide) (by decide)

/-- A response to an exception that leads to an error of a fixed status, without headers. -/
theorem standard_error {request : HttpRequest} {exc : ApiException} {status : ℕ} {message : String} {details : List (String × String)}
    (h : answer request.context (.error exc) = errorResponse request.context status message details [] none)
    (hstatus : status ∈ [404, 409, 422]) : (request.respond (.error exc)).Standard sha py rows request where
  requestId := respond_requestId request _
  correlationId := respond_correlationId request _
  body := by
    refine .inr (.inr ?_)
    rw [respond_body, respond_statusCode, h]
    exact ⟨_, rfl, rfl, .inl (lookup_code status ((by decide : ∀ s ∈ [404, 409, 422], s ∈ errorCodes.map (·.1)) status hstatus))⟩
  challenge hs := by
    rw [respond_statusCode, h] at hs
    rcases hs with rfl | rfl
    all_goals exact absurd hstatus (by decide)
  retryAfter hs := by
    rw [respond_statusCode, h] at hs
    rcases hs with rfl | ⟨rfl, -⟩
    all_goals exact absurd hstatus (by decide)

/-- A response to an exception that leads to an internal error. -/
theorem standard_internal {request : HttpRequest} {exc : ApiException} {message : String}
    (h : answer request.context (.error exc) = errorResponse request.context 500 message [] [] (some "internal_error"))
    (hmessage : message = "An internal error occurred." ∨ CorruptRow sha py rows message) :
    (request.respond (.error exc)).Standard sha py rows request where
  requestId := respond_requestId request _
  correlationId := respond_correlationId request _
  body := by
    refine .inr (.inr ?_)
    rw [respond_body, respond_statusCode, h]
    exact ⟨_, rfl, rfl, .inr ⟨rfl, rfl, rfl, hmessage⟩⟩
  challenge hs := by
    rw [respond_statusCode, h] at hs
    rcases hs with hs | hs <;> cases hs
  retryAfter hs := by
    rw [respond_statusCode, h] at hs
    rcases hs with hs | ⟨hs, -⟩ <;> cases hs

/-- A response to an exception that has no handler. -/
theorem standard_other (request : HttpRequest) (exc : PyException) :
    (request.respond (.error (.other exc))).Standard sha py rows request := by
  by_cases htransient : classifyFailure exc = .transient
  · have h : answer request.context (.error (.other exc)) = errorResponse request.context 503
        "A dependency is temporarily unavailable. Retry shortly." [] [("Retry-After", "5")] none := by
      simp only [answer, handleError, unhandledError, if_pos htransient]
    refine ⟨respond_requestId request _, respond_correlationId request _, .inr (.inr ?_), fun hs => ?_, fun _ => ?_⟩
    · rw [respond_body, respond_statusCode, h]
      exact ⟨_, rfl, rfl, .inl (lookup_code 503 (by decide))⟩
    · rw [respond_statusCode, h] at hs
      rcases hs with hs | hs <;> cases hs
    · refine ⟨PyStr.ofString "5", (respond_get request _ (by decide) (by decide)).trans ?_⟩
      rw [h]
      rfl
  · refine standard_internal ?_ (.inl rfl)
    simp only [answer, handleError, unhandledError, if_neg htransient]

/-- A response to what a route may return or raise. -/
theorem standard_expected {request : HttpRequest} {result : Except ApiException ApiResponse} {status : ℕ}
    (hstatus : status ∈ [200, 201]) (h : Expected (CorruptRow sha py rows) status result) :
    (request.respond result).Standard sha py rows request := by
  cases result with
  | ok response =>
    obtain ⟨hok, hbody⟩ := h
    refine ⟨respond_requestId request _, respond_correlationId request _, .inl ⟨?_, hbody⟩, fun hs => ?_, fun hs => ?_⟩
    · change response.statusCode = 200 ∨ response.statusCode = 201
      simpa [hok] using hstatus
    · change response.statusCode = 401 ∨ response.statusCode = 403 at hs
      rw [hok] at hs
      rcases hs with rfl | rfl
      all_goals exact absurd hstatus (by decide)
    · change response.statusCode = 429 ∨ response.statusCode = 503 ∧ _ at hs
      rw [hok] at hs
      rcases hs with rfl | ⟨rfl, -⟩
      all_goals exact absurd hstatus (by decide)
  | error exc =>
    cases exc with
    | http error =>
      refine standard_http h.status h.challenge ?_
      rintro (hs | ⟨hs, -⟩)
      · exact h.retryAfter hs
      · exact absurd hs h.available
    | requestValidation errors => exact standard_error rfl (by decide)
    | invalidRuleSet error => exact standard_error rfl (by decide)
    | transactionNotFound message => exact standard_error rfl (by decide)
    | ruleSetNotFound message => exact standard_error rfl (by decide)
    | ruleSetVersionConflict error => exact standard_error rfl (by decide)
    | corruptRuleSet message => exact standard_internal rfl (.inr h)
    | other exc => exact standard_other request exc

/-- A response to a redirect. -/
theorem standard_redirect {request : HttpRequest} {location : String} (h : request.routed = .redirect location) :
    (request.respond (.ok (redirectResponse location))).Standard sha py rows request where
  requestId := respond_requestId request _
  correlationId := respond_correlationId request _
  body := .inr (.inl ⟨rfl, rfl, location, h, respond_get request _ (by decide) (by decide)⟩)
  challenge hs := by
    rw [respond_statusCode] at hs
    rcases hs with hs | hs <;> cases hs
  retryAfter hs := by
    rw [respond_statusCode] at hs
    rcases hs with hs | ⟨hs, -⟩ <;> cases hs

/-- A response to what a request may be answered with. -/
theorem standard_answers {request : HttpRequest} {result : Except ApiException ApiResponse}
    (h : Answers (CorruptRow sha py rows) request result) : (request.respond result).Standard sha py rows request := by
  cases h with
  | expected h => exact standard_expected (by decide) h
  | notReady hready detail =>
    refine standard_http (by decide : 503 ∈ errorCodes.map (·.1)) ?_ ?_
    · rintro (h | h) <;> cases h
    · rintro (h | ⟨-, hne⟩)
      · cases h
      · exact absurd hready hne
  | redirected h => exact standard_redirect h

end ServingAux

section Service

variable {sha : Sha256} {py : Interpreter} {reader : EventReader} {settings : ScopeSettings} {data : Position → TransactionData}
  {naive : NaiveTimes} {requests : ℕ → HttpRequest}

open ServingAux ApiAux

/-- Every response, to any request that reaches the application and whatever it ended with, has the ids of its request, and every error the
one shape with a code of the table; an internal error says nothing of its cause, unless it is a stored row that does not load. -/
theorem responses_standard {s : ServiceState} (h : (service sha py reader settings naive data requests).Reachable s) {i : ℕ}
    {response : ApiResponse} (hr : s.requests i = .responded response) : response.Standard sha py s.rows (requests i) := by
  have hinv := inv_reachable h
  have hreq := hinv.requests i
  rw [hr] at hreq
  rcases hreq with ⟨-, result, hanswers, -, rfl⟩ | ⟨call, raised, result, -, hresult, rfl⟩
  · exact standard_answers hanswers
  · have hcreated : Expected (CorruptRow sha py s.rows) 201 result := by
      refine expected_created hresult fun error hphase message hmessage => ?_
      obtain ⟨record, hrow, hload⟩ := hinv.rows.corrupt i error hphase
      exact ⟨record, List.mem_map_of_mem hrow, error, hload, hmessage⟩
    exact standard_expected (by decide) hcreated

end Service

/-! ## Publishing -/

/-- A request acts for a subject with a scope: its token was decoded to claims that give both, and its caller is within the limit. -/
structure HttpRequest.ActsFor (py : Interpreter) (request : HttpRequest) (subject scope : String) : Prop where
  token : ∃ token claims, bearerToken request.caller.credentials = some token ∧ request.caller.decode token = .ok claims ∧
    subject = stripSpace (py.str ((claims.given "sub").getD (.str ""))) ∧ scope ∈ parseScopes py claims
  named : subject ≠ ""
  allowed : request.caller.limit.bind RateOutcome.raised = none

/-- A row is what the body of a request says, published by the subject of its token, after the version it expects. -/
def RuleSetVersionRecord.SentBy (sha : Sha256) (py : Interpreter) (settings : ScopeSettings) (row : RuleSetVersionRecord)
    (request : HttpRequest) : Prop :=
  ∃ json body definition, request.routed = .route (.createVersion row.ruleSetKey (.decoded json)) ∧
    request.ActsFor py row.createdBy settings.scopeRulesWrite ∧ CreateRuleSetVersionRequest.modelValidate py json = .ok body ∧
    parseRuleSetDefinition py body.definition = .ok definition ∧ Jsonb.ofJson definition.modelDump = some row.definition ∧
    row.contentHash = FraudDetection.contentHash sha definition ∧ row.description = body.description ∧
    ∀ expected, body.expectedCurrentVersion = some expected → row.version = expected + 1

/-- What the publishes of a service have come to. -/
structure PublishesExact (sha : Sha256) (py : Interpreter) (settings : ScopeSettings) (requests : ℕ → HttpRequest) (s : ServiceState) :
    Prop where
  /-- A row that is stored was sent by a request that may, and that was told so, or that something failed. -/
  stored : ∀ v ∈ s.versions.table.rows, ∀ i, v.call = some i → v.record.SentBy sha py settings (requests i) ∧
    ∀ response, s.requests i = .responded response → response.statusCode ∈ [201, 500, 503]
  /-- A publish that was told that it is stored is. -/
  created : ∀ i response, s.requests i = .responded response → response.statusCode = 201 →
    ∃ v ∈ s.versions.table.rows, v.call = some i ∧ ∃ ruleSet, ruleSetFromRecord sha py v.record = .ok ruleSet ∧
      response.body = .ruleSetVersion (.fromRuleSet ruleSet) ∧ response.headers.get "location" = .str (PyStr.ofString
        ("/api/v1/rule-sets/" ++ v.record.ruleSetKey ++ "/versions/" ++ toString v.record.version))
  once : (s.versions.table.rows.filterMap (·.call)).Nodup

namespace ServingAux

open ApiAux

/-- Whom a caller that has passed a scope acts for. -/
theorem actsFor_of_requireScope {py : Interpreter} {request : HttpRequest} {scope : String} {principal : AuthenticatedPrincipal}
    (h : requireScope py scope request.caller = .ok principal) : request.ActsFor py principal.subject scope := by
  obtain ⟨hprincipal, hscope, hlimit⟩ := requireScope_ok h
  unfold getCurrentPrincipal at hprincipal
  split at hprincipal
  · cases hprincipal
  · rename_i token htoken
    split at hprincipal
    · cases hprincipal
    · cases hprincipal
    · cases hprincipal
    · rename_i claims hclaims
      dsimp only at hprincipal
      split at hprincipal
      · cases hprincipal
      · rename_i hsubject
        cases hprincipal
        exact ⟨⟨token, claims, htoken, hclaims, rfl, hscope⟩, hsubject, hlimit⟩

/-- An exception leads to an error. -/
theorem error_body (request : HttpRequest) (exc : ApiException) : ∃ error, (request.respond (.error exc)).body = .error error := by
  rw [respond_body]
  cases exc with
  | other exc =>
    simp only [answer, handleError, unhandledError]
    split
    all_goals exact ⟨_, rfl⟩
  | _ => exact ⟨_, rfl⟩

/-- An exception without a handler leads to 500 or 503. -/
theorem other_status (request : HttpRequest) (exc : PyException) :
    (request.respond (.error (.other exc))).statusCode ∈ [201, 500, 503] := by
  rw [respond_statusCode]
  simp only [answer, handleError, unhandledError]
  split
  · exact List.mem_cons_of_mem _ (List.mem_cons_of_mem _ (List.mem_singleton_self _))
  · exact List.mem_cons_of_mem _ List.mem_cons_self

theorem loadError_status (request : HttpRequest) (error : LoadError) :
    (request.respond (.error error.toApiException)).statusCode = 500 := by
  rw [respond_statusCode]
  cases error with
  | python e => cases e <;> rfl
  | _ => rfl

/-- The key and the version of a rule set are those of its row. -/
theorem ruleSetFromRecord_named {sha : Sha256} {py : Interpreter} {record : RuleSetVersionRecord} {ruleSet : RuleSet}
    (h : ruleSetFromRecord sha py record = .ok ruleSet) : ruleSet.key = record.ruleSetKey ∧ ruleSet.version = record.version := by
  unfold ruleSetFromRecord at h
  split at h
  · cases h
  · obtain ⟨definition, -, heq⟩ := Except.bind_eq_ok.mp h
    cases heq
    exact ⟨rfl, rfl⟩

section Publishing

variable {sha : Sha256} {py : Interpreter} {reader : EventReader} {settings : ScopeSettings} {requests : ℕ → HttpRequest}
  {s : ServiceState}

/-- A call with a row is a publish that was admitted. -/
theorem admitted_of_phase (h : ServiceInv sha py reader settings requests s) {i : ℕ} (hphase : s.versions.phase i ≠ .called) :
    ∃ call, (requests i).accept sha py reader settings = .ok (.createVersion call) ∧
      ∀ response, s.requests i = .responded response → ∃ raised result,
        Api.createVersion call.key raised (s.versions.phase i) = some result ∧ response = (requests i).respond result := by
  have hreq := h.requests i
  cases hp : s.requests i with
  | absent =>
    rw [hp] at hreq
    exact absurd hreq hphase
  | reading action =>
    rw [hp] at hreq
    exact absurd hreq.1 hphase
  | scoring ruleSet body =>
    rw [hp] at hreq
    exact absurd hreq.1 hphase
  | publishing call =>
    rw [hp] at hreq
    refine ⟨call, hreq, fun response hr => ?_⟩
    cases hr
  | responded response =>
    rw [hp] at hreq
    rcases hreq with ⟨hcalled, -⟩ | ⟨call, raised, result, haccept, hresult, rfl⟩
    · exact absurd hcalled hphase
    · refine ⟨call, haccept, fun r hr => ?_⟩
      cases hr
      exact ⟨raised, result, hresult, rfl⟩

/-- A row of a call that was admitted is what its request has sent. -/
theorem sentBy_of_written {row : RuleSetVersionRecord} {request : HttpRequest} {call : CreateCall}
    (haccept : request.accept sha py reader settings = .ok (.createVersion call)) (h : WrittenBy call row) :
    row.SentBy sha py settings request := by
  obtain ⟨hkey, hdefinition, hhash, hdescription, hby, hexpected⟩ := h
  obtain ⟨json, body, principal, hrouted, hbody, hscope, hparse, hdhash, hddescription, hdby, hdexpected⟩ := accept_create haccept
  refine ⟨json, body, call.definition, hkey ▸ hrouted, ?_, hbody, hparse, hdefinition, hhash.trans hdhash,
    hdescription.trans hddescription, fun expected he => hexpected expected (hdexpected.trans he)⟩
  rw [hby, hdby]
  exact actsFor_of_requireScope hscope

/-- How a publish ends whose row may be stored. -/
theorem status_of_row {request : HttpRequest} {key : String} {raised : PyException} {phase : CreatePhase}
    {result : Except ApiException ApiResponse} (hrow : phase.MayHaveRow) (h : Api.createVersion key raised phase = some result) :
    (request.respond result).statusCode ∈ [201, 500, 503] := by
  cases phase with
  | returned ruleSet =>
    cases h
    exact List.mem_cons_self
  | raised error =>
    cases error with
    | outage =>
      cases h
      exact other_status request raised
    | corrupt error =>
      cases h
      rw [loadError_status]
      exact List.mem_cons_of_mem _ List.mem_cons_self
    | conflict error => exact hrow.elim
    | refused => exact hrow.elim
  | called => exact hrow.elim
  | selected current => exact hrow.elim
  | flushed record => exact hrow.elim
  | committed record => cases h

/-- An answer of 201 is the answer to a call that has returned. -/
theorem returned_of_created {request : HttpRequest} {key : String} {raised : PyException} {phase : CreatePhase}
    {result : Except ApiException ApiResponse} (h : Api.createVersion key raised phase = some result)
    (hstatus : (request.respond result).statusCode = 201) : ∃ ruleSet, phase = .returned ruleSet := by
  cases phase with
  | returned ruleSet => exact ⟨ruleSet, rfl⟩
  | raised error =>
    cases error with
    | outage =>
      cases h
      rw [respond_statusCode] at hstatus
      simp only [answer, handleError, unhandledError] at hstatus
      split at hstatus <;> cases hstatus
    | corrupt error =>
      cases h
      rw [loadError_status] at hstatus
      cases hstatus
    | conflict error =>
      cases h
      cases hstatus
    | refused =>
      cases h
      cases hstatus
  | called => cases h
  | selected current => cases h
  | flushed record => cases h
  | committed record => cases h

/-- A response to anything but a publish is no 201. -/
theorem status_ne_created {rows : List RuleSetVersionRecord} {request : HttpRequest} {result : Except ApiException ApiResponse}
    (h : Answers (CorruptRow sha py rows) request result) : (request.respond result).statusCode ≠ 201 := by
  intro h201
  cases result with
  | ok response =>
    cases h with
    | expected h => exact absurd (h.1.symm.trans h201) (by decide)
    | redirected h => cases h201
  | error exc =>
    obtain ⟨error, hbody⟩ := error_body request exc
    rcases (standard_answers h).body with ⟨-, hne⟩ | ⟨h307, -⟩ | ⟨shown, -, -, hcode | ⟨h500, -⟩⟩
    · exact hne error hbody
    · exact absurd (h307.symm.trans h201) (by decide)
    · exact (by decide : ∀ code ∈ errorCodes, code.1 ≠ 201) _ hcode h201
    · exact absurd (h500.symm.trans h201) (by decide)

end Publishing

end ServingAux

section Service

variable {sha : Sha256} {py : Interpreter} {reader : EventReader} {settings : ScopeSettings} {data : Position → TransactionData}
  {naive : NaiveTimes} {requests : ℕ → HttpRequest}

open ServingAux ApiAux

/-- Of the rows that requests store, each is what a caller with the scope has sent, published by the subject of the token, and no request
stores two; a publish that is told 201 is stored as the response says, and one that is refused with a status below 500 is not. -/
theorem publishes_exact {s : ServiceState} (h : (service sha py reader settings naive data requests).Reachable s) :
    PublishesExact sha py settings requests s := by
  have hinv := inv_reachable h
  have hversions := VersionsAux.inv_reachable hinv.versions
  refine ⟨fun v hv i hi => ?_, fun i response hr h201 => ?_, hversions.one⟩
  · obtain ⟨hwritten, hrow⟩ := hversions.stored v hv i hi
    have hphase : s.versions.phase i ≠ .called := by
      intro hcalled
      rw [hcalled] at hrow
      exact hrow
    obtain ⟨call, haccept, hresponse⟩ := admitted_of_phase hinv hphase
    have hsent : sentCall sha py reader settings requests i = call := by
      unfold sentCall
      rw [haccept]
    refine ⟨sentBy_of_written haccept (hsent ▸ hwritten), fun response hr => ?_⟩
    obtain ⟨raised, result, hresult, rfl⟩ := hresponse response hr
    exact status_of_row hrow hresult
  · have hreq := hinv.requests i
    rw [hr] at hreq
    rcases hreq with ⟨-, result, hexpected, -, rfl⟩ | ⟨call, raised, result, haccept, hresult, rfl⟩
    · exact absurd h201 (status_ne_created hexpected)
    · obtain ⟨ruleSet, hphase⟩ := returned_of_created hresult h201
      obtain ⟨record, hrow, hload⟩ := hinv.rows.returned i ruleSet hphase
      refine ⟨_, hrow, rfl, ruleSet, hload, ?_⟩
      rw [hphase] at hresult
      cases hresult
      obtain ⟨hkey, hversion⟩ := ruleSetFromRecord_named hload
      have hwritten := (hversions.stored _ hrow i rfl).1
      have hsent : sentCall sha py reader settings requests i = call := by
        unfold sentCall
        rw [haccept]
      rw [hsent] at hwritten
      refine ⟨rfl, (respond_get _ _ (by decide) (by decide)).trans ?_⟩
      change HttpHeaders.get [("location", _)] "location" = _
      rw [hwritten.1, ← hversion]
      rfl

end Service

namespace ServingAux

open ApiAux

/-- An error of any kind has a status of at least 400. -/
theorem error_status {sha : Sha256} {py : Interpreter} {rows : List RuleSetVersionRecord} {request : HttpRequest} {exc : ApiException}
    (h : Answers (CorruptRow sha py rows) request (.error exc)) : 400 ≤ (request.respond (.error exc)).statusCode := by
  obtain ⟨error, hbody⟩ := error_body request exc
  rcases (standard_answers h).body with ⟨-, hne⟩ | ⟨-, hempty, -⟩ | ⟨shown, -, -, hcode | ⟨h500, -⟩⟩
  · exact absurd hbody (hne error)
  · rw [hbody] at hempty
    cases hempty
  · exact (by decide : ∀ code ∈ errorCodes, 400 ≤ code.1) _ hcode
  · exact h500 ▸ (by decide)

end ServingAux

section Service

variable {sha : Sha256} {py : Interpreter} {reader : EventReader} {settings : ScopeSettings} {data : Position → TransactionData}
  {naive : NaiveTimes} {requests : ℕ → HttpRequest}

open ServingAux ApiAux

/-- Nothing is shown, and nothing done, for a caller who may not ask for it: a request to a route with a scope that is answered with
anything but an error has a token that was decoded to a subject and this scope, and is within the rate limit. -/
theorem responses_authorised {s : ServiceState} (h : (service sha py reader settings naive data requests).Reachable s) {i : ℕ}
    {response : ApiResponse} (hr : s.requests i = .responded response) (hok : response.statusCode < 400) {route : Route}
    (hroute : (requests i).routed = .route route) {scope : String} (hscope : route.scope settings = some scope) :
    ∃ subject, (requests i).ActsFor py subject scope := by
  have haccept : ∃ action, (requests i).accept sha py reader settings = .ok action := by
    have hreq := (inv_reachable h).requests i
    rw [hr] at hreq
    rcases hreq with ⟨-, result, hresult, haccept, rfl⟩ | ⟨call, raised, result, haccept, -, rfl⟩
    · cases result with
      | ok r => exact haccept r rfl
      | error exc => exact absurd (error_status hresult) (not_le.mpr hok)
    · exact ⟨_, haccept⟩
  obtain ⟨action, haccept⟩ := haccept
  obtain ⟨principal, hprincipal⟩ := accept_scope haccept hroute hscope
  exact ⟨principal.subject, actsFor_of_requireScope hprincipal⟩

end Service

/-! ## Versions that were shown -/

/-- The versions in the body of a response. -/
def ApiResponse.versions (response : ApiResponse) : List RuleSetVersionResponse :=
  match response.body with
  | .ruleSetVersion version => [version]
  | .ruleSetVersionPage data _ _ => data
  | _ => []

/-- A response to a request for the active version of a key whose newest row is this: the rule set of the row, or 500 if it does not
load. -/
def ApiResponse.ActiveOf (sha : Sha256) (py : Interpreter) (newest : RuleSetVersionRecord) (response : ApiResponse) : Prop :=
  (∃ active, ruleSetFromRecord sha py newest = .ok active ∧ response.statusCode = 200 ∧
    response.body = .ruleSetVersion (.fromRuleSet active) ∧ active.key = newest.ruleSetKey ∧ active.version = newest.version) ∨
  (∃ error, ruleSetFromRecord sha py newest = .error error) ∧ response.statusCode = 500

/-- A response has shown a version. -/
def ServiceState.Shows (s : ServiceState) (version : RuleSetVersionResponse) : Prop :=
  ∃ i response, s.requests i = .responded response ∧ version ∈ response.versions

namespace ServingAux

open ApiAux

/-- A version is that of a row. -/
def OfRow (sha : Sha256) (py : Interpreter) (rows : List RuleSetVersionRecord) (version : RuleSetVersionResponse) : Prop :=
  ∃ row ∈ rows, ∃ ruleSet, ruleSetFromRecord sha py row = .ok ruleSet ∧ version = .fromRuleSet ruleSet

/-- The versions of every response are those of rows. -/
def ShownInv (sha : Sha256) (py : Interpreter) (s : ServiceState) : Prop :=
  ∀ i response, s.requests i = .responded response → ∀ version ∈ response.versions, OfRow sha py s.rows version

theorem OfRow.grow {sha : Sha256} {py : Interpreter} {rows rows' : List RuleSetVersionRecord} {version : RuleSetVersionResponse}
    (h : OfRow sha py rows version) (hrows : rows ⊆ rows') : OfRow sha py rows' version := by
  obtain ⟨row, hrow, ruleSet, hload, hversion⟩ := h
  exact ⟨row, hrows hrow, ruleSet, hload, hversion⟩

/-- A response to an exception shows no version. -/
theorem error_versions (request : HttpRequest) (exc : ApiException) : (request.respond (.error exc)).versions = [] := by
  obtain ⟨error, hbody⟩ := error_body request exc
  unfold ApiResponse.versions
  rw [hbody]

/-- Rule sets that are loaded from rows are versions of rows. -/
theorem mapM_ofRow {sha : Sha256} {py : Interpreter} {records : List RuleSetVersionRecord} {ruleSets : List RuleSet}
    (h : records.mapM (ruleSetFromRecord sha py) = .ok ruleSets) : ∀ ruleSet ∈ ruleSets, OfRow sha py records (.fromRuleSet ruleSet) := by
  induction records generalizing ruleSets with
  | nil =>
    cases h
    intro ruleSet hr
    cases hr
  | cons record records ih =>
    rw [List.mapM_cons] at h
    obtain ⟨first, hfirst, h⟩ := Except.bind_eq_ok.mp h
    obtain ⟨rest, hrest, h⟩ := Except.bind_eq_ok.mp h
    cases h
    intro ruleSet hr
    rcases List.mem_cons.mp hr with rfl | hr
    · exact ⟨record, List.mem_cons_self, ruleSet, hfirst, rfl⟩
    · exact (ih hrest ruleSet hr).grow (List.subset_cons_self record records)

theorem listRuleSetVersions_ofRow {sha : Sha256} {py : Interpreter} {rows : List RuleSetVersionRecord} {key : String} {limit : ℤ}
    {beforeVersion : Option ℤ} {ruleSets : List RuleSet} (h : listRuleSetVersions sha py rows key limit beforeVersion = .ok ruleSets) :
    ∀ ruleSet ∈ ruleSets, OfRow sha py rows (.fromRuleSet ruleSet) := by
  unfold listRuleSetVersions at h
  split at h
  · cases h
  · split at h
    · cases h
    · dsimp only at h
      cases hload : (((rows.filter (·.ruleSetKey = key)).filter fun record =>
          beforeVersion.all fun before => decide ((record.version : ℤ) < before)).mergeSort
            fun left right => decide (right.version ≤ left.version)).take limit.toNat |>.mapM (ruleSetFromRecord sha py) with
      | error e =>
        rw [hload] at h
        cases h
      | ok found =>
        rw [hload] at h
        cases h
        intro ruleSet hr
        refine (mapM_ofRow hload ruleSet hr).grow fun record hrecord => ?_
        have hsorted := List.mem_mergeSort.mp (List.mem_of_mem_take hrecord)
        exact List.mem_of_mem_filter (List.mem_of_mem_filter hsorted)

section Shown

variable {sha : Sha256} {py : Interpreter} {reader : EventReader} {settings : ScopeSettings} {data : Position → TransactionData}
  {naive : NaiveTimes} {requests : ℕ → HttpRequest} {s s' : ServiceState}

theorem latestRuleSet_ofRow {rows : List RuleSetVersionRecord} {key : String} {ruleSet : RuleSet}
    (h : Api.latestRuleSet sha py rows key = .ok ruleSet) : OfRow sha py rows (.fromRuleSet ruleSet) := by
  unfold Api.latestRuleSet at h
  split at h
  · rename_i active hactive
    cases h
    unfold getLatestRuleSet at hactive
    split at hactive
    · cases hactive
    · rename_i record hlatest
      split at hactive
      · rename_i loaded hload
        cases hactive
        have hmem := List.argmax_mem hlatest
        exact ⟨record, List.mem_of_mem_filter hmem, ruleSet, hload, rfl⟩
      · cases hactive
  · cases h
  · cases h

theorem getRuleSetVersion_ofRow {rows : List RuleSetVersionRecord} {key : String} {version : ℤ} {ruleSet : RuleSet}
    (h : Api.getRuleSetVersion sha py rows key version = .ok ruleSet) : OfRow sha py rows (.fromRuleSet ruleSet) := by
  unfold Api.getRuleSetVersion at h
  split at h
  · cases h
  · split at h
    · cases h
    · rename_i record hfind
      split at h
      · rename_i loaded hload
        cases h
        exact ⟨record, List.mem_of_find?_eq_some hfind, ruleSet, hload, rfl⟩
      · cases h

/-- The versions that the statement of a request leads to are those of rows. -/
theorem select_versions {request : HttpRequest} {action : Action} {response : ApiResponse}
    (h : s.select sha py naive request action = some (.responded response)) :
    ∀ version ∈ response.versions, OfRow sha py s.rows version := by
  -- a response shows what its route returns, and nothing when the route raises
  have hrespond : ∀ result : Except ApiException ApiResponse,
      (∀ r, result = .ok r → ∀ version ∈ r.versions, OfRow sha py s.rows version) →
      ∀ version ∈ (request.respond result).versions, OfRow sha py s.rows version := by
    intro result hresult version hversion
    cases result with
    | ok r => exact hresult r rfl version hversion
    | error exc =>
      rw [error_versions] at hversion
      cases hversion
  have hone : ∀ {ruleSet : RuleSet}, OfRow sha py s.rows (.fromRuleSet ruleSet) →
      ∀ version ∈ (okResponse (.ruleSetVersion (.fromRuleSet ruleSet))).versions, OfRow sha py s.rows version := by
    intro ruleSet hrow version hversion
    rw [List.mem_singleton.mp hversion]
    exact hrow
  unfold ServiceState.select at h
  split at h
  · cases h
    refine hrespond _ fun r hr version hversion => ?_
    unfold Api.getTransactionById at hr
    split at hr
    · cases hr
    · cases hr
      cases hversion
  · cases h
    refine hrespond _ fun r hr version hversion => ?_
    unfold Api.listTransactionDecisions at hr
    split at hr
    · cases hr
    · cases hr
    · cases hr
      cases hversion
  · cases h
    refine hrespond _ fun r hr version hversion => ?_
    unfold Api.listVersions at hr
    split at hr
    · cases hr
    · split at hr
      · cases hr
      · cases hr
      · rename_i ruleSets hlist
        split at hr
        · cases hr
        · cases hr
          obtain ⟨ruleSet, hmem, rfl⟩ := List.mem_map.mp hversion
          exact listRuleSetVersions_ofRow hlist ruleSet hmem
  · cases h
    refine hrespond _ fun r hr => ?_
    obtain ⟨ruleSet, hlatest, heq⟩ := Except.bind_eq_ok.mp hr
    cases heq
    exact hone (latestRuleSet_ofRow hlatest)
  · cases h
    refine hrespond _ fun r hr => ?_
    obtain ⟨ruleSet, hfound, heq⟩ := Except.bind_eq_ok.mp hr
    cases heq
    exact hone (getRuleSetVersion_ofRow hfound)
  · split at h
    · cases h
      intro version hversion
      rw [error_versions] at hversion
      cases hversion
    · cases h
  · cases h

/-- A request that goes on shows versions of rows. -/
theorem shown_setRequest {i : ℕ} {phase : RequestPhase} (h : ShownInv sha py s)
    (hphase : ∀ response, phase = .responded response → ∀ version ∈ response.versions, OfRow sha py s.rows version) :
    ShownInv sha py (s.setRequest i phase) := by
  intro j response hj
  rcases StepSystem.update_cases hj with ⟨-, hq⟩ | ⟨-, hj⟩
  · exact hphase response hq
  · exact h j response hj

theorem shown_step (hi : ServiceInv sha py reader settings requests s) (h : ShownInv sha py s) {e : ServiceEvent}
    (hs : serviceStep sha py reader settings naive data requests s e = some s') : ShownInv sha py s' := by
  have hgrow := rows_grow hi hs
  rcases serviceStep_cases hs with ⟨event, decisions, rfl, -, rfl⟩ | ⟨event, call, versions, rfl, hp, hv, rfl⟩ | ⟨i, rfl, hp, rfl⟩ |
    ⟨i, action, phase, rfl, hp, hselect, rfl⟩ | ⟨i, ruleSet, body, rfl, hp, rfl⟩ | ⟨i, raised, rfl, hp, rfl⟩ |
    ⟨i, database, redis, rfl, hp, rfl⟩ | ⟨i, raised, call, result, rfl, hp, hresult, rfl⟩
  · exact h
  · exact fun j response hj version hversion => (h j response hj version hversion).grow hgrow
  · refine shown_setRequest h fun response hresponse version hversion => ?_
    unfold RequestPhase.ofAdmission at hresponse
    split at hresponse
    · cases hresponse
      rw [error_versions] at hversion
      cases hversion
    · cases hresponse
      cases hversion
    · cases hresponse
      cases hversion
    · cases hresponse
      cases hversion
    · cases hresponse
    · cases hresponse
  · refine shown_setRequest h fun response hresponse => ?_
    rw [hresponse] at hselect
    exact select_versions hselect
  · refine shown_setRequest h fun response hresponse version hversion => ?_
    cases hresponse
    unfold Api.scored at hversion
    split at hversion
    · rw [error_versions] at hversion
      cases hversion
    · cases hversion
  · refine shown_setRequest h fun response hresponse version hversion => ?_
    cases hresponse
    rw [error_versions] at hversion
    cases hversion
  · refine shown_setRequest h fun response hresponse version hversion => ?_
    cases hresponse
    cases database <;> cases redis <;> cases hversion
  · refine shown_setRequest h fun response hresponse version hversion => ?_
    cases hresponse
    cases result with
    | error exc =>
      rw [error_versions] at hversion
      cases hversion
    | ok r =>
      -- the rule set of a call that has returned was loaded from its row
      unfold Api.createVersion at hresult
      split at hresult
      · rename_i ruleSet hphase
        cases hresult
        obtain ⟨record, hrow, hload⟩ := hi.rows.returned i ruleSet hphase
        rw [List.mem_singleton.mp hversion]
        exact ⟨record, List.mem_map_of_mem hrow, ruleSet, hload, rfl⟩
      · cases hresult
      · cases hresult
      · cases hresult
      · cases hresult
      · cases hresult

theorem shown_reachable (h : (service sha py reader settings naive data requests).Reachable s) : ShownInv sha py s := by
  have hboth := @StepSystem.Reachable.invariant _ _ _ (fun s => ServiceInv sha py reader settings requests s ∧ ShownInv sha py s)
    ?_ ?_ s h
  · exact hboth.2
  · refine fun s hs => ⟨inv_reachable (.start hs), fun i response hi => ?_⟩
    rw [hs.2.2.2 i] at hi
    cases hi
  · exact fun s e s' hi hs => ⟨inv_step hi.1 hs, shown_step hi.1 hi.2 hs⟩

/-! ### A request that is watched -/

/-- A request that asks for one statement has not been answered, or its response has a property. -/
def Watched (P : ApiResponse → Prop) (i : ℕ) (action : Action) (s : ServiceState) : Prop :=
  match s.requests i with
  | .absent => True
  | .reading a => a = action
  | .responded response => P response
  | _ => False

theorem watched_setRequest {P : ApiResponse → Prop} {i j : ℕ} {action : Action} {phase : RequestPhase} (h : Watched P j action s)
    (hphase : j = i → match phase with
      | .absent => True
      | .reading a => a = action
      | .responded response => P response
      | _ => False) : Watched P j action (s.setRequest i phase) := by
  unfold Watched
  by_cases hj : j = i
  · subst hj
    rw [show (s.setRequest j phase).requests j = phase from Function.update_self _ _ _]
    exact hphase rfl
  · rw [show (s.setRequest i phase).requests j = s.requests j from Function.update_of_ne hj _ _]
    exact h

/-- A request that the database does not fail stays watched, when its statement answers it as it should. -/
theorem watched_step {P : ApiResponse → Prop} {j : ℕ} {action : Action}
    (haccept : (requests j).accept sha py reader settings = .ok action)
    (hready : action ≠ .ready) (hphase : RequestPhase.ofAdmission sha py reader settings (requests j) = .reading action)
    {e : ServiceEvent} (hselect : e = .select j → ∀ phase, s.select sha py naive (requests j) action = some phase →
      ∃ response, phase = .responded response ∧ P response)
    (h : Watched P j action s) (hfail : ∀ raised, e ≠ .fail j raised)
    (hs : serviceStep sha py reader settings naive data requests s e = some s') : Watched P j action s' := by
  rcases serviceStep_cases hs with ⟨event, decisions, rfl, -, rfl⟩ | ⟨event, call, versions, rfl, hp, hv, rfl⟩ | ⟨i, rfl, hp, rfl⟩ |
    ⟨i, action', phase, rfl, hp, hselects, rfl⟩ | ⟨i, ruleSet, body, rfl, hp, rfl⟩ | ⟨i, raised, rfl, hp, rfl⟩ |
    ⟨i, database, redis, rfl, hp, rfl⟩ | ⟨i, raised, call, result, rfl, hp, hresult, rfl⟩
  · exact h
  · exact h
  · refine watched_setRequest h ?_
    rintro rfl
    rw [hphase]
  · refine watched_setRequest h ?_
    rintro rfl
    unfold Watched at h
    rw [hp] at h
    subst h
    obtain ⟨response, rfl, hP⟩ := hselect rfl phase hselects
    exact hP
  · refine watched_setRequest h ?_
    rintro rfl
    unfold Watched at h
    rw [hp] at h
    exact h.elim
  · refine watched_setRequest h ?_
    rintro rfl
    exact absurd rfl (hfail raised)
  · refine watched_setRequest h ?_
    rintro rfl
    unfold Watched at h
    rw [hp] at h
    exact absurd h.symm hready
  · refine watched_setRequest h ?_
    rintro rfl
    unfold Watched at h
    rw [hp] at h
    exact h.elim

/-- A request that comes after a state is answered by what its statement finds in a later one. -/
theorem watched_run {P : ApiResponse → Prop} {t u : ServiceState} {after : List ServiceEvent} {j : ℕ} {action : Action}
    (ht : (service sha py reader settings naive data requests).Reachable t)
    (hr : (service sha py reader settings naive data requests).run t after = some u) (hj : t.requests j = .absent)
    (hfail : ∀ raised, .fail j raised ∉ after) (haccept : (requests j).accept sha py reader settings = .ok action)
    (hready : action ≠ .ready) (hphase : RequestPhase.ofAdmission sha py reader settings (requests j) = .reading action)
    (hselect : ∀ v : ServiceState, (service sha py reader settings naive data requests).Reachable v → t.rows ⊆ v.rows →
      (v, .select j) ∈ (service sha py reader settings naive data requests).taken t after →
      ∀ phase, v.select sha py naive (requests j) action = some phase → ∃ response, phase = .responded response ∧ P response)
    {response : ApiResponse} (hresponse : u.requests j = .responded response) : P response := by
  have hmeets : (service sha py reader settings naive data requests).Meets
      (fun v e => (v, e) ∈ (service sha py reader settings naive data requests).taken t after) t after :=
    StepSystem.meets_of_taken fun _ htaken => htaken
  have hfirst : Watched P j action t := by
    unfold Watched
    rw [hj]
    trivial
  have hlast := @StepSystem.Meets.invariant _ _ _ _
    (fun v => (service sha py reader settings naive data requests).Reachable v ∧ t.rows ⊆ v.rows ∧ Watched P j action v)
    (fun v e v' hi htaken hs => ⟨.step hi.1 trivial hs, List.Subset.trans hi.2.1 (rows_grow (inv_reachable hi.1) hs),
      watched_step haccept hready hphase (fun he => hselect v hi.1 hi.2.1 (he ▸ htaken)) hi.2.2
        (fun raised he => hfail raised (he ▸ StepSystem.mem_of_taken htaken)) hs⟩)
    after t u hmeets hr ⟨ht, List.Subset.refl _, hfirst⟩
  have hwatched := hlast.2.2
  unfold Watched at hwatched
  rw [hresponse] at hwatched
  exact hwatched

/-! ### What is found -/

/-- Two rows of one key and one version are the same. -/
theorem row_eq (h : ServiceInv sha py reader settings requests s) {row row' : RuleSetVersionRecord} (hrow : row ∈ s.rows)
    (hrow' : row' ∈ s.rows) (hkey : row.ruleSetKey = row'.ruleSetKey) (hversion : row.version = row'.version) : row = row' := by
  obtain ⟨v, hv, rfl⟩ := List.mem_map.mp hrow
  obtain ⟨v', hv', rfl⟩ := List.mem_map.mp hrow'
  have hkeyed := (VersionsAux.inv_reachable h.versions).keyed
  rw [hkeyed.eq_of_key hv hv' (Prod.ext hkey hversion)]

theorem getVersion_row (h : ServiceInv sha py reader settings requests s) {row : RuleSetVersionRecord} {ruleSet : RuleSet}
    (hrow : row ∈ s.rows) (hload : ruleSetFromRecord sha py row = .ok ruleSet) :
    Api.getVersion sha py s.rows row.ruleSetKey row.version = .ok (okResponse (.ruleSetVersion (.fromRuleSet ruleSet))) := by
  have hheld : ¬Api.maxInteger < (row.version : ℤ) := by
    obtain ⟨v, hv, rfl⟩ := List.mem_map.mp hrow
    exact not_lt.mpr (h.rows.held v hv)
  obtain ⟨found, hfound⟩ : ∃ found, s.rows.find? (fun r => decide (r.ruleSetKey = row.ruleSetKey ∧ (r.version : ℤ) = row.version)) =
      some found := by
    refine Option.isSome_iff_exists.mp (List.find?_isSome.mpr ⟨row, hrow, ?_⟩)
    exact decide_eq_true ⟨rfl, rfl⟩
  have hnamed : found.ruleSetKey = row.ruleSetKey ∧ (found.version : ℤ) = row.version := by
    simpa using List.find?_some hfound
  have heq := row_eq h (List.mem_of_find?_eq_some hfound) hrow hnamed.1 (Int.ofNat.inj hnamed.2)
  unfold Api.getVersion Api.getRuleSetVersion
  rw [if_neg hheld, hfound]
  dsimp only
  rw [heq, hload]
  rfl

/-- The active version of a key that has a row is that of its newest row, if this loads. -/
theorem latest_row (sha : Sha256) (py : Interpreter) {row : RuleSetVersionRecord} (hrow : row ∈ s.rows) :
    ∃ newest ∈ s.rows, latestRecord s.rows row.ruleSetKey = some newest ∧ newest.ruleSetKey = row.ruleSetKey ∧
      row.version ≤ newest.version ∧ Api.latestRuleSet sha py s.rows row.ruleSetKey =
        (ruleSetFromRecord sha py newest).mapError LoadError.toApiException := by
  cases hlatest : latestRecord s.rows row.ruleSetKey with
  | none =>
    have hnil := List.argmax_eq_none.mp hlatest
    have hmem : row ∈ s.rows.filter (·.ruleSetKey = row.ruleSetKey) := List.mem_filter.mpr ⟨hrow, decide_eq_true rfl⟩
    rw [hnil] at hmem
    cases hmem
  | some active =>
    have hmem := List.mem_filter.mp (List.argmax_mem hlatest)
    refine ⟨active, hmem.1, rfl, of_decide_eq_true hmem.2, CacheAux.latestRecord_max hlatest row hrow rfl, ?_⟩
    cases hload : ruleSetFromRecord sha py active with
    | ok ruleSet =>
      simp only [Api.latestRuleSet, getLatestRuleSet, hlatest, hload]
      rfl
    | error error =>
      simp only [Api.latestRuleSet, getLatestRuleSet, hlatest, hload]
      rfl

/-- How a request for the active version is answered. -/
theorem respond_active {rows : List RuleSetVersionRecord} {key : String} {newest : RuleSetVersionRecord} (request : HttpRequest)
    (h : Api.latestRuleSet sha py rows key = (ruleSetFromRecord sha py newest).mapError LoadError.toApiException) :
    (request.respond (Api.getActiveVersion sha py rows key)).ActiveOf sha py newest ∧
      ∀ ruleSet, ruleSetFromRecord sha py newest = .ok ruleSet →
        (request.respond (Api.getActiveVersion sha py rows key)).statusCode = 200 ∧
          (request.respond (Api.getActiveVersion sha py rows key)).body = .ruleSetVersion (.fromRuleSet ruleSet) := by
  unfold Api.getActiveVersion
  rw [h]
  cases hload : ruleSetFromRecord sha py newest with
  | ok active =>
    obtain ⟨hkey, hversion⟩ := ruleSetFromRecord_named hload
    refine ⟨.inl ⟨active, hload, rfl, rfl, hkey, hversion⟩, fun ruleSet hr => ?_⟩
    cases hr
    exact ⟨rfl, rfl⟩
  | error error =>
    refine ⟨.inr ⟨⟨error, hload⟩, loadError_status request error⟩, fun ruleSet hr => ?_⟩
    cases hr

end Shown

end ServingAux

section Service

variable {sha : Sha256} {py : Interpreter} {reader : EventReader} {settings : ScopeSettings} {data : Position → TransactionData}
  {naive : NaiveTimes} {requests : ℕ → HttpRequest}

open ServingAux ApiAux

/-- A version that any response has shown never changes: every later request for it by its number is answered with the same content.
Every later request for the active version of its key is answered by the newest row at the time of its statement, which has this version,
as it is, or a newer one. -/
theorem shown_version_stays {t u : ServiceState} {after : List ServiceEvent} {version : RuleSetVersionResponse}
    (ht : (service sha py reader settings naive data requests).Reachable t) (hshown : t.Shows version)
    (hr : (service sha py reader settings naive data requests).run t after = some u) {j : ℕ} (hj : t.requests j = .absent)
    (hfail : ∀ raised, .fail j raised ∉ after) {response : ApiResponse} (hresponse : u.requests j = .responded response) :
    ((requests j).accept sha py reader settings = .ok (.getVersion version.key version.version) →
      response.statusCode = 200 ∧ response.body = .ruleSetVersion version) ∧
    ((requests j).accept sha py reader settings = .ok (.getActiveVersion version.key) →
      ∃ v newest, (v, .select j) ∈ (service sha py reader settings naive data requests).taken t after ∧
        latestRecord v.rows version.key = some newest ∧ newest.ruleSetKey = version.key ∧ version.version ≤ newest.version ∧
        response.ActiveOf sha py newest ∧
        (newest.version = version.version → response.statusCode = 200 ∧ response.body = .ruleSetVersion version)) := by
  obtain ⟨i, shown, hi, hmem⟩ := hshown
  obtain ⟨row, hrow, ruleSet, hload, rfl⟩ := shown_reachable ht i shown hi version hmem
  obtain ⟨hkey, hversion⟩ := ruleSetFromRecord_named hload
  refine ⟨fun haccept => ?_, fun haccept => ?_⟩
  · refine watched_run (P := fun response => response.statusCode = 200 ∧ response.body = .ruleSetVersion (.fromRuleSet ruleSet))
      ht hr hj hfail haccept (by simp) ?_ ?_ hresponse
    · simp only [RequestPhase.ofAdmission, haccept]
    · intro v hv hgrow _ phase hphase
      have hget := getVersion_row (inv_reachable hv) (hgrow hrow) hload
      rw [← hkey, ← hversion] at hget
      cases hphase
      change Api.getVersion sha py v.rows ruleSet.key ruleSet.version = _ at hget
      refine ⟨_, rfl, ?_⟩
      change ((requests j).respond (Api.getVersion sha py v.rows ruleSet.key ruleSet.version)).statusCode = 200 ∧
        ((requests j).respond (Api.getVersion sha py v.rows ruleSet.key ruleSet.version)).body = _
      rw [hget]
      exact ⟨rfl, rfl⟩
  · refine watched_run (P := fun response => ∃ v newest,
      (v, .select j) ∈ (service sha py reader settings naive data requests).taken t after ∧
      latestRecord v.rows ruleSet.key = some newest ∧ newest.ruleSetKey = ruleSet.key ∧ ruleSet.version ≤ newest.version ∧
        response.ActiveOf sha py newest ∧
        (newest.version = ruleSet.version → response.statusCode = 200 ∧ response.body = .ruleSetVersion (.fromRuleSet ruleSet)))
      ht hr hj hfail haccept (by simp) ?_ ?_ hresponse
    · simp only [RequestPhase.ofAdmission, haccept]
    · intro v hv hgrow htaken phase hphase
      cases hphase
      refine ⟨_, rfl, ?_⟩
      obtain ⟨newest, hnewest, hlatest, hnewestKey, hle, hactive⟩ := latest_row sha py (hgrow hrow)
      rw [← hkey] at hlatest hactive
      obtain ⟨hof, hok⟩ := respond_active (requests j) hactive
      refine ⟨v, newest, htaken, hlatest, hnewestKey.trans hkey.symm, hversion ▸ hle, hof, fun hsame => ?_⟩
      -- of one version there is one row
      have heq : newest = row := row_eq (inv_reachable hv) hnewest (hgrow hrow) hnewestKey (hsame.trans hversion)
      exact hok ruleSet (heq ▸ hload)

end Service

namespace ServingExample

open RoundTripExample VersionsExample CacheExample ServingAux

/-- A caller who may read and write rule sets. -/
def caller : Caller where
  credentials := some ⟨"bearer", "token"⟩
  decode _ := .ok [("sub", .str "analyst"), ("scope", .str "fraud:rules:read fraud:rules:write")]
  limit := some .allowed

/-- The first version of a rule set is published, and then read by its number and as the active one. -/
def route : ℕ → Route
  | 0 => .createVersion "fraud-default" (.decoded (.obj [("description", .str "First version."), ("definition", body (.int 10000)),
      ("expected_current_version", .int 0)]))
  | 1 => .getVersion "fraud-default" (.ok 1)
  | _ => .getActiveVersion "fraud-default"

def requests (i : ℕ) : HttpRequest := ⟨[], ⟨0⟩, ⟨1⟩, caller, .route (route i), ⟨5400000000, 5400, by decide, by decide⟩⟩

/-- The call that the first of them sends. -/
def call : CreateCall := ⟨"fraud-default", whole, contentHash digest whole, "First version.", "analyst", some 0⟩

/-- Before any request. -/
def start : ServiceState := ⟨empty, .empty, fun _ => .absent⟩

theorem bearer : bearerToken caller.credentials = some "token" := by
  have hlower : "bearer".toLower = "bearer" := by
    refine String.toList_inj.mp ?_
    change ("bearer".map Char.toLower).toList = _
    rw [String.toList_map]
    decide
  simp only [bearerToken, caller, hlower]
  decide

/-- The caller has both scopes. -/
theorem requireScope_caller {scope : String} (h : scope = "fraud:rules:read" ∨ scope = "fraud:rules:write") :
    ∃ principal, requireScope interpreter scope caller = .ok principal ∧ principal.subject = "analyst" := by
  have hprincipal : ∃ principal, getCurrentPrincipal interpreter caller.decode caller.credentials = .ok principal ∧
      principal.subject = "analyst" ∧ "fraud:rules:read" ∈ principal.scopes ∧ "fraud:rules:write" ∈ principal.scopes := by
    unfold getCurrentPrincipal
    rw [bearer]
    exact ⟨_, rfl, by decide, by decide, by decide⟩
  obtain ⟨principal, hp, hsubject, hread, hwrite⟩ := hprincipal
  refine ⟨principal, ?_, hsubject⟩
  unfold requireScope
  rw [hp]
  rcases h with rfl | rfl
  · dsimp only
    rw [if_pos hread]
    rfl
  · dsimp only
    rw [if_pos hwrite]
    rfl

theorem accept_publish : (requests 0).accept digest interpreter ParsingExample.reader {} = .ok (.createVersion call) := by
  obtain ⟨principal, hscope, hsubject⟩ := requireScope_caller (.inr rfl)
  have hvalid : validated ((checkRuleSetKey "fraud-default").both (CreateRuleSetVersionRequest.modelValidate interpreter
      (.obj [("description", .str "First version."), ("definition", body (.int 10000)), ("expected_current_version", .int 0)]))) =
      .ok ("fraud-default", ⟨"First version.", body (.int 10000), some 0⟩) := rfl
  have hparse : parseRuleSetDefinition interpreter (body (.int 10000)) = .ok whole := rfl
  simp only [HttpRequest.accept, requests, route, RequestBody.read, Except.ok_bind, hscope, hvalid, createAction, hparse, hsubject]
  rfl

theorem accept_read : (requests 1).accept digest interpreter ParsingExample.reader {} = .ok (.getVersion "fraud-default" 1) := by
  obtain ⟨principal, hscope, -⟩ := requireScope_caller (.inl rfl)
  have hvalid : validated ((checkRuleSetKey "fraud-default").both
      (Checked.at "path" (Checked.at "version" (checkBounds 1 none 1)))) = .ok ("fraud-default", 1) := rfl
  simp only [HttpRequest.accept, requests, route, Except.ok_bind, hscope, hvalid]
  rfl

theorem accept_active : (requests 2).accept digest interpreter ParsingExample.reader {} = .ok (.getActiveVersion "fraud-default") := by
  obtain ⟨principal, hscope, -⟩ := requireScope_caller (.inl rfl)
  have hvalid : validated (checkRuleSetKey "fraud-default") = .ok "fraud-default" := rfl
  simp only [HttpRequest.accept, requests, route, Except.ok_bind, hscope, hvalid]
  rfl

/-- The row that is stored. -/
def row : RuleSetVersionRecord := { record 1 with description := "First version." }

def published : RuleSet := { ruleSet 1 with description := "First version." }

theorem row_loads : ruleSetFromRecord digest interpreter row = .ok published := by
  have h := record_loads 1
  unfold ruleSetFromRecord at h ⊢
  split at h
  · cases h
  · rename_i raw hraw
    obtain ⟨definition, hload, heq⟩ := Except.bind_eq_ok.mp h
    have hrow : row.definition.toJson = some raw := hraw
    rw [hrow]
    dsimp only
    rw [show loadStoredDefinition digest interpreter raw row.contentHash (ruleSetLabel row.ruleSetKey row.version) = .ok definition
      from hload]
    cases heq
    rfl

/-- A first publish that nothing gets in the way of returns what it has stored. -/
theorem first_returns {call : CreateCall} {record : RuleSetVersionRecord} {ruleSet : RuleSet} (hguard : guardConflict call 0 = none)
    (hrecord : newRecord call 0 0 = some record) (hload : ruleSetFromRecord digest interpreter record = .ok ruleSet) :
    ∃ v : VersionsState, (versions digest interpreter fun _ => call).run empty
      [.select 0, .flush 0 0, .commit 0 true, .reload 0] = some v ∧ v.phase 0 = .returned ruleSet ∧ v.rows = [record] := by
  obtain ⟨table, htable, hrows⟩ : ∃ table, empty.table.insert StoredVersion.key 0 ⟨record, some 0⟩ = .inserted table ∧
      (table.commit 0).rows = [⟨record, some 0⟩] := ⟨_, rfl, rfl⟩
  have hcurrent : currentVersion empty.rows call.key = 0 := rfl
  have hselect : (versions digest interpreter fun _ => call).step empty (.select 0) = some (empty.setPhase 0 (.selected 0)) := by
    simp only [versions, createStep, show empty.phase 0 = .called from rfl, hcurrent, hguard]
  have hflush : (versions digest interpreter fun _ => call).step (empty.setPhase 0 (.selected 0)) (.flush 0 0) =
      some ((⟨table, (empty.setPhase 0 (.selected 0)).phase⟩ : VersionsState).setPhase 0 (.flushed record)) := by
    simp only [versions, createStep, VersionsState.setPhase, Function.update_self, hrecord, htable]
  simp only [StepSystem.run, hselect, hflush, Option.bind_some]
  simp only [versions, createStep, VersionsState.setPhase, Function.update_self, if_true, Option.bind_some, hload]
  refine ⟨_, rfl, ?_, ?_⟩
  · simp only [Function.update_self]
  · simp only [VersionsState.rows, hrows, List.map_cons, List.map_nil]

/-- The call returns what it has stored. -/
theorem call_returns : ∃ v : VersionsState, (versions digest interpreter fun _ => call).run empty
    [.select 0, .flush 0 0, .commit 0 true, .reload 0] = some v ∧ v.phase 0 = .returned published ∧ v.rows = [row] :=
  @first_returns _ row _ rfl rfl row_loads

/-- Kafka has no transactions here. -/
def noData (_ : Position) : TransactionData := ⟨⟨0⟩, ⟨0⟩, 0, "", "", 0⟩

/-- The statements of the call of a request, as steps of the service. -/
theorem publish_run {requests : ℕ → HttpRequest} {s : ServiceState} {v : VersionsState} {i : ℕ} {es : List CreateEvent}
    (hp : s.requests i = .publishing call) (hes : ∀ e ∈ es, e.call = i)
    (hr : (versions digest interpreter fun _ => call).run s.versions es = some v) :
    (service digest interpreter ParsingExample.reader {} some noData requests).run s (es.map .publish) = some { s with versions := v } := by
  induction es generalizing s with
  | nil =>
    cases hr
    rfl
  | cons e es ih =>
    obtain ⟨w, hw, hr⟩ := StepSystem.run_cons hr
    have hcall : s.requests e.call = .publishing call := by rw [hes e List.mem_cons_self, hp]
    have hstep : (service digest interpreter ParsingExample.reader {} some noData requests).step s (.publish e) =
        some { s with versions := w } := by
      unfold service serviceStep
      simp only [hcall]
      exact congrArg (Option.map _) hw
    rw [List.map_cons, StepSystem.run, hstep, Option.bind_some]
    exact ih (s := { s with versions := w }) hp (fun e he => hes e (List.mem_cons_of_mem _ he)) hr

theorem start_start : (service digest interpreter ParsingExample.reader {} some noData requests).start start :=
  ⟨fun _ => empty_start, nofun, rfl, fun _ => rfl⟩

/-- The events of the publish, up to its answer. -/
def publishEvents : List ServiceEvent :=
  .receive 0 :: ([.select 0, .flush 0 0, .commit 0 true, .reload 0] : List CreateEvent).map .publish ++ [.answer 0 (.error .osError)]

/-- The answer to the publish. -/
theorem publish_answered : ∃ t,
    (service digest interpreter ParsingExample.reader {} some noData requests).run start publishEvents = some t ∧
    t.requests 0 = .responded ((requests 0).respond (.ok
      ⟨⟨201, [("location", PyStr.ofString "/api/v1/rule-sets/fraud-default/versions/1")]⟩,
        .ruleSetVersion (.fromRuleSet published)⟩)) ∧
    t.requests 1 = .absent ∧ t.requests 2 = .absent ∧ t.rows = [row] := by
  obtain ⟨v, hrun, hphase, hrows⟩ := call_returns
  have hreceive : (service digest interpreter ParsingExample.reader {} some noData requests).run start [.receive 0] =
      some (start.setRequest 0 (.publishing call)) := by
    simp only [StepSystem.run, service, serviceStep, start, RequestPhase.ofAdmission, accept_publish, Option.bind_some]
  have hpublish := @publish_run requests (start.setRequest 0 (.publishing call)) _ 0 _ rfl (by decide) hrun
  have hanswer : (service digest interpreter ParsingExample.reader {} some noData requests).run
      { start.setRequest 0 (.publishing call) with versions := v } [.answer 0 (.error .osError)] =
        some ({ start.setRequest 0 (.publishing call) with versions := v }.setRequest 0 (.responded ((requests 0).respond (.ok
          ⟨⟨201, [("location", PyStr.ofString "/api/v1/rule-sets/fraud-default/versions/1")]⟩,
            .ruleSetVersion (.fromRuleSet published)⟩)))) := by
    simp only [StepSystem.run, service, serviceStep, ServiceState.setRequest, Function.update_self, hphase, Api.createVersion,
      Option.map_some, Option.bind_some]
    rfl
  have hfirst := (StepSystem.run_append hreceive _).trans hpublish
  exact ⟨_, (StepSystem.run_append hfirst _).trans hanswer, rfl, rfl, rfl, hrows⟩

/-- A request for the version that was published, or for the active one. -/
theorem read_answered {t : ServiceState} {i : ℕ} {action : Action} {result : Except ApiException ApiResponse} (ht : t.requests i = .absent)
    (hphase : RequestPhase.ofAdmission digest interpreter ParsingExample.reader {} (requests i) = .reading action)
    (hselect : ∀ v : ServiceState, v.rows = t.rows →
      v.select digest interpreter some (requests i) action = some (.responded ((requests i).respond result))) :
    ∃ u, (service digest interpreter ParsingExample.reader {} some noData requests).run t [.receive i, .select i] = some u ∧
      u.requests i = .responded ((requests i).respond result) ∧
      ∀ v, (v, .select i) ∈ (service digest interpreter ParsingExample.reader {} some noData requests).taken t [.receive i, .select i] →
        v.rows = t.rows := by
  have hreceive : (service digest interpreter ParsingExample.reader {} some noData requests).step t (.receive i) =
      some (t.setRequest i (.reading action)) := by
    simp only [service, serviceStep, ht, hphase]
  have hanswer : (service digest interpreter ParsingExample.reader {} some noData requests).step
      (t.setRequest i (.reading action)) (.select i) =
      some ((t.setRequest i (.reading action)).setRequest i (.responded ((requests i).respond result))) := by
    have hreading : (t.setRequest i (.reading action)).requests i = .reading action := Function.update_self _ _ _
    simp only [service, serviceStep, hreading, hselect (t.setRequest i (.reading action)) rfl, Option.map_some]
  refine ⟨_, by rw [StepSystem.run, hreceive, Option.bind_some, StepSystem.run, hanswer]; rfl, Function.update_self _ _ _, fun v hv => ?_⟩
  simp only [StepSystem.taken, hreceive, Option.map_some, Option.getD_some, List.mem_cons, Prod.mk.injEq, reduceCtorEq, and_false,
    false_or] at hv
  rcases hv with ⟨rfl, -⟩ | hv
  · rfl
  · rw [hanswer] at hv
    cases hv

end ServingExample

open ServingExample RoundTripExample in
/-- The answer to a publish. -/
theorem responses_standard_published : ∃ t response,
    (service digest interpreter ParsingExample.reader {} some noData requests).run start publishEvents = some t ∧
      t.requests 0 = .responded response ∧ response.Standard digest interpreter t.rows (requests 0) := by
  obtain ⟨t, hrun, hanswer, -⟩ := publish_answered
  exact ⟨t, _, hrun, hanswer, responses_standard (StepSystem.Reachable.run (.start start_start) hrun) hanswer⟩

open ServingExample RoundTripExample in
/-- A publish that is told 201. -/
theorem publishes_exact_published : ∃ t response,
    (service digest interpreter ParsingExample.reader {} some noData requests).run start publishEvents = some t ∧
      t.requests 0 = .responded response ∧ response.statusCode = 201 ∧ PublishesExact digest interpreter {} requests t := by
  obtain ⟨t, hrun, hanswer, -⟩ := publish_answered
  exact ⟨t, _, hrun, hanswer, rfl, publishes_exact (StepSystem.Reachable.run (.start start_start) hrun)⟩

open ServingExample RoundTripExample in
/-- The caller of the publish has the scope for it. -/
theorem responses_authorised_published : ∃ t response,
    (service digest interpreter ParsingExample.reader {} some noData requests).run start publishEvents = some t ∧
      t.requests 0 = .responded response ∧ ∃ subject, (requests 0).ActsFor interpreter subject "fraud:rules:write" := by
  obtain ⟨t, hrun, hanswer, -⟩ := publish_answered
  exact ⟨t, _, hrun, hanswer, responses_authorised (StepSystem.Reachable.run (.start start_start) hrun) hanswer (by decide) rfl rfl⟩

open ServingExample RoundTripExample in
/-- The version that was published is read by its number, and as the active one. -/
theorem shown_version_stays_published : ∃ t u u' response response',
    (service digest interpreter ParsingExample.reader {} some noData requests).run start publishEvents = some t ∧
      (service digest interpreter ParsingExample.reader {} some noData requests).run t [.receive 1, .select 1] = some u ∧
      u.requests 1 = .responded response ∧
      (response.statusCode = 200 ∧ response.body = .ruleSetVersion (.fromRuleSet published)) ∧
      (service digest interpreter ParsingExample.reader {} some noData requests).run t [.receive 2, .select 2] = some u' ∧
      u'.requests 2 = .responded response' ∧ response'.ActiveOf digest interpreter row ∧
      response'.statusCode = 200 ∧ response'.body = .ruleSetVersion (.fromRuleSet published) := by
  obtain ⟨t, hrun, hanswer, hfirst, hsecond, hrows⟩ := publish_answered
  have hreach := StepSystem.Reachable.run (.start start_start) hrun
  have hshown : t.Shows (.fromRuleSet published) := ⟨0, _, hanswer, List.mem_singleton_self _⟩
  obtain ⟨u, hread, hresponse, -⟩ := @read_answered t 1 _ (Api.getVersion digest interpreter t.rows "fraud-default" 1) hfirst
    (by simp only [RequestPhase.ofAdmission, accept_read]; rfl) (fun v hv => by rw [← hv]; rfl)
  obtain ⟨u', hactive, hresponse', hthen⟩ := @read_answered t 2 _ (Api.getActiveVersion digest interpreter t.rows "fraud-default") hsecond
    (by simp only [RequestPhase.ofAdmission, accept_active]; rfl) (fun v hv => by rw [← hv]; rfl)
  have hnumber := (shown_version_stays hreach hshown hread hfirst (by simp) hresponse).1 accept_read
  obtain ⟨v, newest, htaken, hlatest, -, -, hof, hsame⟩ :=
    (shown_version_stays hreach hshown hactive hsecond (by simp) hresponse').2 accept_active
  have hnewest : newest = row := by
    rw [hthen v htaken, hrows] at hlatest
    exact (Option.some.inj hlatest).symm
  rw [hnewest] at hof hsame
  exact ⟨t, u, u', _, _, hrun, hread, hresponse, hnumber, hactive, hresponse', hof, hsame rfl⟩

end FraudDetection
