import FraudDetection.Cache
import FraudDetection.DecisionStore
import FraudDetection.DryRun
import FraudDetection.Observability
import FraudDetection.RateLimit
import FraudDetection.Security
import FraudDetection.VersionPages

/-!
# The HTTP API

One request: what its dependencies and its parameters must be before its route runs, the statement its route runs, what becomes of an
exception, and the response with its ids. Routing is Starlette's, and what it makes of a method and a path is part of a request.
-/

namespace FraudDetection

/-! ## Responses -/

/-- `ErrorBody`. -/
structure ErrorBody where
  code : String
  message : String
  details : List (String × String)
  correlationId : Option PyStr
  deriving DecidableEq, Repr

/-- `RuleSetVersionResponse`. -/
structure RuleSetVersionResponse where
  key : String
  version : ℕ
  label : String
  description : String
  definition : Json
  contentHash : String
  createdBy : String
  createdAt : Timestamp

/-- `RuleSetVersionResponse.from_rule_set`. -/
def RuleSetVersionResponse.fromRuleSet (ruleSet : RuleSet) : RuleSetVersionResponse where
  key := ruleSet.key
  version := ruleSet.version
  label := ruleSetLabel ruleSet.key ruleSet.version
  description := ruleSet.description
  definition := ruleSet.definition.modelDump
  contentHash := ruleSet.contentHash
  createdBy := ruleSet.createdBy
  createdAt := ruleSet.createdAt

/-- The body of a response: `ErrorResponse`, or what a route returns. A redirect has none. -/
inductive ResponseBody where
  | error (error : ErrorBody)
  | empty
  | live
  | ready
  | metrics
  | transaction (record : TransactionRecord)
  | transactionPage (page : TransactionPage)
  | ruleSetVersion (version : RuleSetVersionResponse)
  | ruleSetVersionPage (data : List RuleSetVersionResponse) (limit : ℤ) (nextBeforeVersion : Option ℕ)
  | evaluation (response : EvaluateResponse)

/-- A response with its body. -/
structure ApiResponse extends Response where
  body : ResponseBody

/-- `_ERROR_CODES`. -/
def errorCodes : List (ℕ × String) := [
  (400, "bad_request"), (401, "unauthorized"), (403, "forbidden"), (404, "not_found"), (405, "method_not_allowed"),
  (409, "conflict"), (415, "unsupported_media_type"), (422, "validation_error"), (429, "rate_limited"),
  (503, "service_unavailable")]

/-- The name of a header, as Starlette sends it. -/
def headerName (name : String) : String := String.ofList (name.toList.map Char.toLower)

/-- `error_response`. -/
def errorResponse (context : LogContext) (statusCode : ℕ) (message : String) (details : List (String × String))
    (headers : List (String × String)) (code : Option String) : ApiResponse where
  statusCode := statusCode
  headers := headers.map fun header => (headerName header.1, PyStr.ofString header.2)
  body := .error ⟨code.getD ((errorCodes.lookup statusCode).getD "error"), message, details, context.current⟩

/-! ## Exceptions -/

/-- What can leave a route or its dependencies. -/
inductive ApiException where
  | http (error : HTTPException)
  | requestValidation (errors : List FieldError)
  | invalidRuleSet (error : InvalidRuleSetError)
  | transactionNotFound (message : String)
  | ruleSetNotFound (message : String)
  | ruleSetVersionConflict (error : VersionConflict)
  | corruptRuleSet (message : String)
  /-- One that has no handler. -/
  | other (error : PyException)
  deriving DecidableEq, Repr

/-- `_install_error_handlers`: the response to an exception, if it has a handler. -/
def handleError (context : LogContext) : ApiException → Except PyException ApiResponse
  | .http error => .ok (errorResponse context error.status error.detail [] error.headers none)
  | .requestValidation errors =>
    .ok (errorResponse context 422 "Request validation failed." (errors.map fun e => (".".intercalate e.loc, e.message)) [] none)
  | .invalidRuleSet error => .ok (errorResponse context 422 error.message error.details [] none)
  | .transactionNotFound message | .ruleSetNotFound message => .ok (errorResponse context 404 message [] [] none)
  | .ruleSetVersionConflict error => .ok (errorResponse context 409 error.message [] [] none)
  | .corruptRuleSet message => .ok (errorResponse context 500 message [] [] (some "internal_error"))
  | .other error => .error error

/-- `UnhandledErrorMiddleware.dispatch`. -/
def unhandledError (context : LogContext) : Except PyException ApiResponse → ApiResponse
  | .ok response => response
  | .error exc =>
    if classifyFailure exc = .transient then
      errorResponse context 503 "A dependency is temporarily unavailable. Retry shortly." [] [("Retry-After", "5")] none
    else errorResponse context 500 "An internal error occurred." [] [] (some "internal_error")

/-- The response to what a route returns or raises. -/
def answer (context : LogContext) : Except ApiException ApiResponse → ApiResponse
  | .ok response => response
  | .error exc => unhandledError context (handleError context exc)

/-- An exception of Python, by the name of its class. -/
def PythonError.toPyException : PythonError → PyException
  | .attributeError => .error (.other "AttributeError")
  | .indexError => .error (.other "IndexError")
  | .keyError => .error (.other "KeyError")
  | .typeError => .error (.other "TypeError")
  | .valueError => .error (.other "ValueError")
  | .nonFinite => .error (.other "InvalidOperation")

/-- An exception that leaves authentication. -/
def AuthException.toPyException : AuthException → PyException
  | .httpError => .error (.other "HTTPError")
  | .valueError => .error (.other "ValueError")
  | .recursionError => .error (.other "RecursionError")
  | .attributeError => .error (.other "AttributeError")
  | .typeError => .error (.other "TypeError")
  | .pyJWKError => .error (.other "PyJWKError")
  | .pyJWKSetError => .error (.other "PyJWKSetError")
  | .invalidToken _ _ => .error (.other "InvalidTokenError")
  | .other name => .error (.other name)

/-- A parameter of a statement, or a row, that the driver or PostgreSQL refuses. -/
def dataError : ApiException := .other (.dbapi .other false (some (.other "Error")) (some (.other "DataError")))

/-- A row that does not load. -/
def LoadError.toApiException (error : LoadError) : ApiException :=
  match error with
  | .python e => .other e.toPyException
  | error => .corruptRuleSet (error.message.getD "")

/-- What `score_transaction` raises. -/
def ScoreError.toApiException : ScoreError → ApiException
  | .overflowError => .other (.error (.other "OverflowError"))
  | .dataError => FraudDetection.dataError
  | .scoring (.rule _ (.python e)) | .scoring (.python e) => .other e.toPyException
  | .scoring _ => .other (.error .ruleEvaluationError)

/-! ## Dependencies -/

/-- The settings that name the scopes. -/
structure ScopeSettings where
  scopeTransactionsRead : String := "fraud:transactions:read"
  scopeRulesRead : String := "fraud:rules:read"
  scopeRulesWrite : String := "fraud:rules:write"

/-- What the dependencies of a route see of its caller: the `Authorization` header, how its token is decoded, and how `enforce` ends
(`none`: there is no limiter). -/
structure Caller where
  credentials : Option Credentials
  decode : String → Except AuthException Claims
  limit : Option RateOutcome

/-- The 403 of `require_scope`. -/
def insufficientScope (required : String) : HTTPException where
  status := 403
  detail := "Access token does not include the required scope '" ++ required ++ "'."
  headers := [("WWW-Authenticate", "Bearer error=\"insufficient_scope\", scope=\"" ++ required ++ "\"")]

/-- `require_scope`. -/
def requireScope (py : Interpreter) (required : String) (caller : Caller) : Except ApiException AuthenticatedPrincipal :=
  match getCurrentPrincipal py caller.decode caller.credentials with
  | .error (.http error) => .error (.http error)
  | .error (.uncaught error) => .error (.other error.toPyException)
  | .ok principal =>
    if required ∈ principal.scopes then
      match caller.limit.bind RateOutcome.raised with
      | some error => .error (.http error)
      | none => .ok principal
    else .error (.http (insufficientScope required))

/-! ## Parameters -/

/-- The body of a request as FastAPI reads it, before anything else. -/
inductive RequestBody (α : Type) where
  /-- `json.JSONDecodeError`, at a position. -/
  | undecodable (position : ℕ)
  /-- Any other exception of the decoder. -/
  | unreadable
  | decoded (value : α)

/-- The exceptions of reading a body. -/
def RequestBody.read {α : Type} : RequestBody α → Except ApiException α
  | .undecodable position => .error (.requestValidation [⟨["body", toString position], "JSON decode error"⟩])
  | .unreadable => .error (.http ⟨400, "There was an error parsing the body", []⟩)
  | .decoded value => .ok value

/-- `ge` and `le` of a parameter. -/
def checkBounds (ge : ℤ) (le : Option ℤ) (n : ℤ) : Checked ℤ :=
  if n < ge then .fail ("Input should be greater than or equal to " ++ toString ge)
  else if ∃ m ∈ le, m < n then .fail ("Input should be less than or equal to " ++ toString (le.getD 0))
  else .ok n

/-- `^[a-z0-9][a-z0-9\-]{1,62}[a-z0-9]$`. -/
def ruleSetKeyPattern (key : String) : Bool :=
  let inner (c : Char) := c.isLower || c.isDigit || c == '-'
  let outer (c : Char) := c.isLower || c.isDigit
  decide (3 ≤ key.toList.length ∧ key.toList.length ≤ 64) && key.toList.all inner && key.toList.head?.all outer &&
    key.toList.getLast?.all outer

/-- `RuleSetKey`. -/
def checkRuleSetKey (key : String) : Checked String :=
  Checked.at "path" <| Checked.at "key" <|
    if ruleSetKeyPattern key then .ok key
    else .fail "String should match pattern '^[a-z0-9][a-z0-9\\-]\x7b1,62\x7d[a-z0-9]$'"

/-- A query parameter. -/
def inQuery {α : Type} (name : String) (check : Checked α) : Checked α := (check.at name).at "query"

/-- A query parameter that may be left out, with a check of what is given. -/
def optionalQuery {α β : Type} (name : String) (given : Checked (Option α)) (check : α → Checked β) : Checked (Option β) :=
  inQuery name do
    match ← given with
    | none => return none
    | some a => return some (← check a)

/-- `limit`, of which a page has at most `MAX_PAGE_SIZE`. -/
def checkLimit (default : ℤ) (limit : Option (Checked ℤ)) : Checked ℤ :=
  inQuery "limit" do checkBounds 1 (some maxPageSize) (← limit.getD (.ok default))

/-- The parameters of a request that must be valid, or its errors. -/
def validated {α : Type} : Checked α → Except ApiException α
  | .ok a => .ok a
  | .error errors => .error (.requestValidation errors)

/-- `CreateRuleSetVersionRequest`. -/
structure CreateRuleSetVersionRequest where
  description : String
  definition : Json
  expectedCurrentVersion : Option ℕ

/-- `dict[str, Any]`. -/
def checkDict : Json → Checked Json
  | .obj entries => .ok (.obj entries)
  | _ => .fail "Input should be a valid dictionary"

/-- `expected_current_version`, which may be left out or be null. -/
def checkExpectedVersion (py : Interpreter) (entries : List (String × Json)) : Checked (Option ℕ) :=
  match Json.lookup entries "expected_current_version" with
  | none | some .null => .ok none
  | some value => Checked.at "expected_current_version" do return some (← checkInt py 0 none value).1

/-- `CreateRuleSetVersionRequest.model_validate`, of a body that FastAPI has decoded. -/
def CreateRuleSetVersionRequest.modelValidate (py : Interpreter) : Json → Checked CreateRuleSetVersionRequest
  | .null => (Checked.fail "Field required").at "body"
  | .obj entries => Checked.at "body" do
    let (((description, definition), expectedCurrentVersion), _) ←
      (((checkField entries "description" checkDescription).both
        (checkField entries "definition" checkDict)).both
        (checkExpectedVersion py entries)).both
        (checkExtra entries ["description", "definition", "expected_current_version"])
    return ⟨description, definition, expectedCurrentVersion⟩
  | _ => (Checked.fail "Input should be a valid dictionary or object to extract fields from").at "body"

/-- The query of `list_transaction_decisions`, where pydantic has read what it is not constrained by. -/
structure TransactionsQuery where
  userId : Checked (Option Uuid)
  category : Option PyStr
  isFraud : Checked (Option Bool)
  verdict : Checked (Option Verdict)
  occurredFrom : Checked (Option AwareDatetime)
  occurredTo : Checked (Option AwareDatetime)
  limit : Option (Checked ℤ)
  cursor : Option PyStr

/-! ## Requests -/

/-- A route and its parameters. -/
inductive Route where
  | live
  | ready
  | metrics
  | getTransactionById (transactionId : Checked Uuid)
  | listTransactionDecisions (query : TransactionsQuery)
  | listVersions (key : String) (limit : Option (Checked ℤ)) (beforeVersion : Checked (Option ℤ))
  | getActiveVersion (key : String)
  | getVersion (key : String) (version : Checked ℤ)
  | createVersion (key : String) (body : RequestBody Json)
  | evaluate (key : String) (body : RequestBody DecimalJson)

/-- The scope that a route requires, if it requires one. -/
def Route.scope (settings : ScopeSettings) : Route → Option String
  | .live | .ready | .metrics => none
  | .getTransactionById _ | .listTransactionDecisions _ => some settings.scopeTransactionsRead
  | .listVersions _ _ _ | .getActiveVersion _ | .getVersion _ _ | .evaluate _ _ => some settings.scopeRulesRead
  | .createVersion _ _ => some settings.scopeRulesWrite

/-- What Starlette makes of a method and a path. -/
inductive Routed where
  | notFound
  | methodNotAllowed (allow : String)
  /-- `redirect_slashes`: with its last slash dropped, or with one more, the path is that of a route. -/
  | redirect (location : String)
  | route (route : Route)

/-- A request, with the UUIDs that are drawn for it and the time its route reads. -/
structure HttpRequest where
  headers : HttpHeaders
  requestUuid : Uuid
  correlationUuid : Uuid
  caller : Caller
  routed : Routed
  now : AwareDatetime

/-- The response to a request, from what its route returns or raises. -/
def HttpRequest.respond (request : HttpRequest) (result : Except ApiException ApiResponse) : ApiResponse :=
  let d := dispatch request.headers request.requestUuid request.correlationUuid fun context =>
    (.ok (answer context result).toResponse : Except Empty Response)
  match d.result with
  | .ok response => ⟨response, (answer d.context result).body⟩

/-- What the route of an admitted request goes on to do. -/
inductive Action where
  | redirect (location : String)
  | live
  | ready
  | metrics
  | getTransaction (transactionId : Uuid)
  | listTransactions (filters : TransactionFilters) (limit : ℤ) (cursor : Option PageCursor)
  | listVersions (key : String) (limit : ℤ) (beforeVersion : Option ℤ)
  | getActiveVersion (key : String)
  | getVersion (key : String) (version : ℤ)
  | createVersion (call : CreateCall)
  | evaluate (key : String) (request : EvaluateRequest)

section Admission

variable (sha : Sha256) (py : Interpreter) (reader : EventReader) (settings : ScopeSettings)

/-- `list_transaction_decisions`, up to its statement. -/
def TransactionsQuery.action (query : TransactionsQuery) : Except ApiException Action := do
  let (((((((userId, category), isFraud), verdict), occurredFrom), occurredTo), limit), cursor) ← validated <|
    (((((((optionalQuery "user_id" query.userId .ok).both
      (optionalQuery "category" (.ok query.category) fun s => checkText categoryConstraints (.str s))).both
      (optionalQuery "is_fraud" query.isFraud .ok)).both
      (optionalQuery "verdict" query.verdict .ok)).both
      (optionalQuery "occurred_from" query.occurredFrom .ok)).both
      (optionalQuery "occurred_to" query.occurredTo .ok)).both
      (checkLimit 50 query.limit)).both
      (optionalQuery "cursor" (.ok query.cursor) fun token =>
        if maxCursorLength < token.length then .fail "String should have at most 256 characters" else .ok token)
  let filters : TransactionFilters := ⟨userId, category, isFraud, verdict, occurredFrom.map AwareDatetime.toDatetime,
    occurredTo.map AwareDatetime.toDatetime⟩
  match cursor with
  | none | some [] => return .listTransactions filters limit none
  | some token =>
    match PageCursor.decode maxCursorLength token with
    | .ok pageCursor => return .listTransactions filters limit (some pageCursor)
    | .error .valueError => .error (.http ⟨400, "cursor is malformed or from a different query.", []⟩)
    | .error .attributeError => .error (.other (.error (.other "AttributeError")))
    | .error .recursionError => .error (.other (.error (.other "RecursionError")))

/-- `create_version`, up to its first statement. -/
def createAction (key : String) (body : CreateRuleSetVersionRequest) (principal : AuthenticatedPrincipal) : Except ApiException Action :=
  match parseRuleSetDefinition py body.definition with
  | .error (.invalid error) => .error (.invalidRuleSet error)
  | .error (.python error) => .error (.other error.toPyException)
  | .ok definition =>
    .ok (.createVersion ⟨key, definition, contentHash sha definition, body.description, principal.subject, body.expectedCurrentVersion⟩)

/-- A request up to the first statement of its route: its body is decoded, its dependencies are solved, its parameters are validated,
in this order, and its route is entered. -/
def HttpRequest.accept (request : HttpRequest) : Except ApiException Action :=
  match request.routed with
  | .notFound => .error (.http ⟨404, "Not Found", []⟩)
  | .methodNotAllowed allow => .error (.http ⟨405, "Method Not Allowed", [("Allow", allow)]⟩)
  | .redirect location => .ok (.redirect location)
  | .route route =>
    match route with
    | .live => .ok .live
    | .ready => .ok .ready
    | .metrics => .ok .metrics
    | .getTransactionById transactionId => do
      let _ ← requireScope py settings.scopeTransactionsRead request.caller
      return .getTransaction (← validated ((transactionId.at "transaction_id").at "path"))
    | .listTransactionDecisions query => do
      let _ ← requireScope py settings.scopeTransactionsRead request.caller
      query.action
    | .listVersions key limit beforeVersion => do
      let _ ← requireScope py settings.scopeRulesRead request.caller
      let ((key, limit), beforeVersion) ← validated <| ((checkRuleSetKey key).both (checkLimit 20 limit)).both
        (optionalQuery "before_version" beforeVersion (checkBounds 2 none))
      return .listVersions key limit beforeVersion
    | .getActiveVersion key => do
      let _ ← requireScope py settings.scopeRulesRead request.caller
      return .getActiveVersion (← validated (checkRuleSetKey key))
    | .getVersion key version => do
      let _ ← requireScope py settings.scopeRulesRead request.caller
      let (key, version) ← validated <| (checkRuleSetKey key).both
        (Checked.at "path" (Checked.at "version" do checkBounds 1 none (← version)))
      return .getVersion key version
    | .createVersion key body => do
      let body ← body.read
      let principal ← requireScope py settings.scopeRulesWrite request.caller
      let (key, body) ← validated <| (checkRuleSetKey key).both (CreateRuleSetVersionRequest.modelValidate py body)
      createAction sha py key body principal
    | .evaluate key body => do
      let body ← body.read
      let _ ← requireScope py settings.scopeRulesRead request.caller
      let (key, body) ← validated <| (checkRuleSetKey key).both (EvaluateRequest.modelValidate reader body)
      return .evaluate key body

end Admission

/-! ## Routes -/

/-- What a route returns, with the status 200. -/
def okResponse (body : ResponseBody) : ApiResponse := ⟨⟨200, []⟩, body⟩

/-- `RedirectResponse`. -/
def redirectResponse (location : String) : ApiResponse := ⟨⟨307, [("location", PyStr.ofString location)]⟩, .empty⟩

namespace Api

section

variable (sha : Sha256) (py : Interpreter)

/-- `get_transaction_by_id`. -/
def getTransactionById (rows : List TransactionRecord) (transactionId : Uuid) : Except ApiException ApiResponse :=
  match getTransaction rows transactionId with
  | none =>
    .error (.transactionNotFound ("Transaction " ++ String.ofList (transactionId.text.map Char.ofNat) ++ " was not found"))
  | some record => .ok (okResponse (.transaction record))

/-- `list_transaction_decisions`, from its statement on. -/
def listTransactionDecisions (naive : NaiveTimes) (rows : List TransactionRecord) (filters : TransactionFilters) (limit : ℤ)
    (cursor : Option PageCursor) : Except ApiException ApiResponse :=
  match listTransactions naive rows filters limit cursor with
  | .error (.valueError _) => .error (.other (.error (.other "ValueError")))
  | .error .dataError => .error dataError
  | .ok (data, next) => .ok (okResponse (.transactionPage ⟨data, limit, next.map PageCursor.encode⟩))

/-- The largest value of an `integer` column. -/
def maxInteger : ℤ := 2147483647

/-- `list_versions`, from its statement on. -/
def listVersions (rows : List RuleSetVersionRecord) (key : String) (limit : ℤ) (beforeVersion : Option ℤ) :
    Except ApiException ApiResponse :=
  if ∃ before ∈ beforeVersion, maxInteger < before then .error dataError
  else
    match listRuleSetVersions sha py rows key limit beforeVersion with
    | .error (.valueError _) => .error (.other (.error (.other "ValueError")))
    | .error (.load error) => .error error.toApiException
    | .ok versions =>
      if versions.isEmpty ∧ beforeVersion = none then .error (.ruleSetNotFound ("No rule set exists for key '" ++ key ++ "'"))
      else .ok (okResponse (.ruleSetVersionPage (versions.map .fromRuleSet) limit (nextBeforeVersion versions limit)))

/-- `get_latest_rule_set`, where it is called by a route. -/
def latestRuleSet (rows : List RuleSetVersionRecord) (key : String) : Except ApiException RuleSet :=
  match getLatestRuleSet sha py rows key with
  | .ok ruleSet => .ok ruleSet
  | .error (.corrupt error) => .error error.toApiException
  | .error error => .error (.ruleSetNotFound (error.message.getD ""))

/-- `get_rule_set_version`. -/
def getRuleSetVersion (rows : List RuleSetVersionRecord) (key : String) (version : ℤ) : Except ApiException RuleSet :=
  if maxInteger < version then .error dataError
  else
    match rows.find? fun row => decide (row.ruleSetKey = key ∧ (row.version : ℤ) = version) with
    | none => .error (.ruleSetNotFound ("Rule set '" ++ key ++ "' has no version " ++ toString version))
    | some record =>
      match ruleSetFromRecord sha py record with
      | .ok ruleSet => .ok ruleSet
      | .error error => .error error.toApiException

/-- `get_active_version`. -/
def getActiveVersion (rows : List RuleSetVersionRecord) (key : String) : Except ApiException ApiResponse := do
  return okResponse (.ruleSetVersion (.fromRuleSet (← latestRuleSet sha py rows key)))

/-- `get_version`. -/
def getVersion (rows : List RuleSetVersionRecord) (key : String) (version : ℤ) : Except ApiException ApiResponse := do
  return okResponse (.ruleSetVersion (.fromRuleSet (← getRuleSetVersion sha py rows key version)))

/-- `create_version`, from the end of `create_rule_set_version` on. `raised` is what the database raised, if it failed. -/
def createVersion (key : String) (raised : PyException) : CreatePhase → Option (Except ApiException ApiResponse)
  | .returned ruleSet =>
    some (.ok ⟨⟨201, [("location", PyStr.ofString ("/api/v1/rule-sets/" ++ key ++ "/versions/" ++ toString ruleSet.version))]⟩,
      .ruleSetVersion (.fromRuleSet ruleSet)⟩)
  | .raised (.conflict error) => some (.error (.ruleSetVersionConflict error))
  | .raised .outage => some (.error (.other raised))
  | .raised .refused => some (.error dataError)
  | .raised (.corrupt error) => some (.error error.toApiException)
  | _ => none

/-- `evaluate`, once a version is active: the velocity query, and the score. -/
def scored (rows : List TransactionRecord) (ruleSet : RuleSet) (now : AwareDatetime) (request : EvaluateRequest) :
    Except ApiException ApiResponse :=
  match scoreTransaction rows ruleSet.definition (.ofRequest request now) with
  | .error error => .error error.toApiException
  | .ok score => .ok (okResponse (.evaluation (.ofScore ruleSet score)))

/-- `ready`, by whether each ping succeeds. -/
def ready (database redis : Bool) : Except ApiException ApiResponse :=
  let failing := (if database then [] else ["database"]) ++ if redis then [] else ["redis"]
  if failing.isEmpty then .ok (okResponse .ready)
  else .error (.http ⟨503, "Not ready: " ++ ", ".intercalate failing ++ " unavailable.", []⟩)

end

end Api

end FraudDetection
