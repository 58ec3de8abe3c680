import FraudDetection.Lib.Regex
import FraudDetection.Paging

/-!
# Logs and correlation ids

What a log record may hold, and the processor that masks the values of sensitive keys in it; the ids a caller may choose, and the
middleware that binds them to a request and sends them back.
-/

namespace FraudDetection

/-! ## Redaction -/

/-- A value in an event dict: a container, a string, or anything else. `κ` are the objects that are keys of a dict. -/
inductive LogValue (κ α : Type) where
  | str (s : PyStr)
  | other (a : α)
  | dict (entries : List (κ × LogValue κ α))
  | list (items : List (LogValue κ α))
  | tuple (items : List (LogValue κ α))
  deriving Repr

/-- `str(k)` of a key, and `lower()` of a string. -/
structure KeyText (κ : Type) where
  str : κ → PyStr
  lower : PyStr → PyStr

variable {κ α : Type}

/-- Whether the lower-cased text of a key is one of the lower-cased sensitive keys. -/
def KeyText.isSensitive (text : KeyText κ) (sensitiveKeys : List PyStr) (k : κ) : Bool :=
  (sensitiveKeys.map text.lower).contains (text.lower (text.str k))

/-- `_REDACTED`. -/
def redacted : LogValue κ α := .str (PyStr.ofString "[REDACTED]")

mutual

/-- `redact`, where `sensitive` says which keys are masked. -/
def LogValue.redact (sensitive : κ → Bool) : LogValue κ α → LogValue κ α
  | .dict entries => .dict (redactEntries sensitive entries)
  | .list items => .list (redactItems sensitive items)
  | .tuple items => .list (redactItems sensitive items)
  | .str s => .str s
  | .other a => .other a

/-- `redact` of the items of a list or a tuple. -/
def LogValue.redactItems (sensitive : κ → Bool) : List (LogValue κ α) → List (LogValue κ α)
  | [] => []
  | item :: items => item.redact sensitive :: redactItems sensitive items

/-- `redact` of the entries of a dict. -/
def LogValue.redactEntries (sensitive : κ → Bool) : List (κ × LogValue κ α) → List (κ × LogValue κ α)
  | [] => []
  | (k, v) :: entries => (k, if sensitive k then redacted else v.redact sensitive) :: redactEntries sensitive entries

end

/-- `_redaction_processor`. -/
def redactionProcessor (text : KeyText κ) (sensitiveKeys : List PyStr) (eventDict : LogValue κ α) : LogValue κ α :=
  eventDict.redact (text.isSensitive sensitiveKeys)

/-! ## Correlation ids -/

/-- A character of `[A-Za-z0-9._:\\-]`. -/
def isSafeChar (c : ℕ) : Bool :=
  decide (0x41 ≤ c ∧ c ≤ 0x5A ∨ 0x61 ≤ c ∧ c ≤ 0x7A ∨ 0x30 ≤ c ∧ c ≤ 0x39) || [0x2E, 0x5F, 0x3A, 0x2D].contains c

/-- `_SAFE_ID`. -/
def safeId : List (Regex.Item ℕ) := [.start, .repeated isSafeChar 1 128, .finish]

/-- An object where an id is expected: a string, or anything else, such as `None`. -/
inductive SuppliedId (α : Type) where
  | str (s : PyStr)
  | other (a : α)
  deriving DecidableEq, Repr

/-- `sanitise_correlation_id`. -/
def sanitiseCorrelationId : SuppliedId α → Option PyStr
  | .str s => if Regex.isMatch 0x0A safeId s then some s else none
  | .other _ => none

/-- `id or str(uuid4())`, where the UUID is drawn if it is needed. -/
def orNewId (id : Option PyStr) (uuid : Uuid) : PyStr :=
  match id with
  | none | some [] => uuid.text
  | some s => s

/-- The context of a request or a message. -/
structure LogContext where
  /-- `_correlation_id_context`. -/
  current : Option PyStr
  /-- The variables bound to every log record. -/
  correlationId : Option PyStr
  requestId : Option PyStr
  deriving DecidableEq, Repr

/-- The context that `clear_log_context` leaves. -/
def LogContext.cleared : LogContext := ⟨none, none, none⟩

/-- `bind_correlation_id`: the id it returns, and the context afterwards. -/
def bindCorrelationId (correlationId : SuppliedId α) (uuid : Uuid) (context : LogContext) : PyStr × LogContext :=
  let resolved := orNewId (sanitiseCorrelationId correlationId) uuid
  (resolved, { context with current := some resolved, correlationId := some resolved })

/-- `CORRELATION_ID_HEADER` and `REQUEST_ID_HEADER`. -/
def correlationIdHeader : String := "x-correlation-id"
def requestIdHeader : String := "x-request-id"

/-- Headers, with their names in lower case. -/
abbrev HttpHeaders := List (String × PyStr)

/-- `headers.get(name)`. -/
def HttpHeaders.get (headers : HttpHeaders) (name : String) : SuppliedId Unit :=
  match headers.find? fun header => header.1 = name with
  | some (_, value) => .str value
  | none => .other ()

/-- `headers[name] = value`: in place of the first header of that name, and without the others. -/
def HttpHeaders.set (headers : HttpHeaders) (name : String) (value : PyStr) : HttpHeaders :=
  match headers with
  | [] => [(name, value)]
  | header :: headers =>
    if header.1 = name then (name, value) :: headers.filter fun header => header.1 ≠ name
    else header :: HttpHeaders.set headers name value

/-- A response of the application. -/
structure Response where
  statusCode : ℕ
  headers : HttpHeaders
  deriving DecidableEq, Repr

/-- What `RequestContextMiddleware.dispatch` does with a request. -/
structure Dispatched (ε : Type) where
  /-- The context of what is logged during the request and of the line `http_request_completed`. -/
  context : LogContext
  /-- The response, or the exception that leaves `call_next`. -/
  result : Except ε Response
  /-- The context afterwards. -/
  afterwards : LogContext

/-- `RequestContextMiddleware.dispatch`: `callNext` is the application, which runs in the context it is given. -/
def dispatch {ε : Type} (headers : HttpHeaders) (requestUuid correlationUuid : Uuid)
    (callNext : LogContext → Except ε Response) : Dispatched ε :=
  let requestId := orNewId (sanitiseCorrelationId (headers.get requestIdHeader)) requestUuid
  let (correlationId, context) := bindCorrelationId (headers.get correlationIdHeader) correlationUuid .cleared
  let context := { context with requestId := some requestId }
  { context
    result := (callNext context).map fun response =>
      { response with headers := (response.headers.set requestIdHeader requestId).set correlationIdHeader correlationId }
    afterwards := .cleared }

end FraudDetection
