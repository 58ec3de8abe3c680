import FraudDetection.Definition
import FraudDetection.Errors
import FraudDetection.Lib.JsonDecode

/-!
# Parsing an event

`parse_transaction_event`: a message value is decoded, its schema version is checked, and its fields are validated. Every
exception that can leave it is kept apart: the documented ones, which reject the message, and the ones that nothing here catches.
-/

namespace FraudDetection

/-! ## Points in time -/

/-- `datetime.min` and `datetime.max`. -/
def datetimeMin : ℤ := -62135596800000000
def datetimeMax : ℤ := 253402300799999999

/-- A date and time that a `datetime` can hold, or `OverflowError`. -/
def datetimeOf (t : ℤ) : Option ℤ := if datetimeMin ≤ t ∧ t ≤ datetimeMax then some t else none

/-- `AwareDatetime`: a wall-clock time, in microseconds, and its offset from UTC, in seconds. -/
structure AwareDatetime where
  wall : ℤ
  offset : ℤ
  wall_ok : datetimeMin ≤ wall ∧ wall ≤ datetimeMax
  offset_ok : -86400 < offset ∧ offset < 86400
  deriving DecidableEq, Repr

/-- The point in time, whether or not a `datetime` in UTC can hold it. -/
def AwareDatetime.instant (d : AwareDatetime) : Timestamp := d.wall - d.offset * 1000000

/-- `value.astimezone(UTC)`. -/
def AwareDatetime.astimezone (d : AwareDatetime) : Option Timestamp := datetimeOf d.instant

/-! ## What pydantic reads -/

/-- How pydantic reads a field's value: what it reads, or the message of its error. -/
structure EventReader where
  uuid : DecimalJson → Except String Uuid
  /-- `Annotated[Decimal, Field(gt=0, max_digits=18, decimal_places=2)]`. -/
  money : DecimalJson → Except String Money
  /-- `Annotated[Decimal, Field(ge=0, max_digits=…, decimal_places=…)]`. -/
  quantity : (digits places : ℕ) → DecimalJson → Except String (Quantity digits places)
  /-- `Annotated[int, Field(ge=0)]`. -/
  natural : DecimalJson → Except String ℕ
  boolean : DecimalJson → Except String Bool
  aware : DecimalJson → Except String AwareDatetime

/-- What a reader reads, checked. -/
def Checked.ofReader {α : Type} : Except String α → Checked α
  | .ok a => .ok a
  | .error message => .fail message

/-- `_reject_binary_floats`, before a field is read. -/
def rejectFloat {α : Type} (check : DecimalJson → Checked α) : DecimalJson → Checked α
  | .float _ => .fail "Value error, must be a decimal string or JSON number, not a float"
  | value => check value

/-- A Python string as a text, unless it holds half a surrogate pair. -/
def PyStr.toText? (s : PyStr) : Option String :=
  if s.all fun n => decide n.isValidChar then some (String.ofList (s.map Char.ofNat)) else none

/-- `StringConstraints`. -/
structure TextConstraints where
  /-- `strip_whitespace` and `to_upper`. -/
  normalise : Bool
  minLength : Option ℕ
  maxLength : Option ℕ
  pattern : String
  isMatch : List Char → Bool

/-- What counts as white space at the ends of a text. -/
def isWhiteSpace (c : Char) : Bool :=
  let n := c.toNat
  decide (0x09 ≤ n ∧ n ≤ 0x0D ∨ 0x2000 ≤ n ∧ n ≤ 0x200A) ||
    [0x20, 0x85, 0xA0, 0x1680, 0x2028, 0x2029, 0x202F, 0x205F, 0x3000].contains n

/-- A text without the white space at its ends. -/
def strip (cs : List Char) : List Char := ((cs.dropWhile isWhiteSpace).reverse.dropWhile isWhiteSpace).reverse

/-- How a length is printed in an error. -/
def characters (n : ℕ) : String := toString n ++ (if n = 1 then " character" else " characters")

/-- A text field with constraints. -/
def checkText (constraints : TextConstraints) : DecimalJson → Checked String
  | .str s =>
    match PyStr.toText? s with
    | none => .fail "Input should be a valid string, unable to parse raw data as a unicode string"
    | some text =>
      let cs := if constraints.normalise then strip text.toList else text.toList
      if ∃ n ∈ constraints.minLength, cs.length < n then
        .fail ("String should have at least " ++ characters (constraints.minLength.getD 0))
      else if ∃ n ∈ constraints.maxLength, n < cs.length then
        .fail ("String should have at most " ++ characters (constraints.maxLength.getD 0))
      else if constraints.isMatch cs then
        .ok (String.ofList (if constraints.normalise then cs.map Char.toUpper else cs))
      else .fail ("String should match pattern '" ++ constraints.pattern ++ "'")
  | _ => .fail "Input should be a valid string"

def isAsciiLetter (c : Char) : Bool := c.isUpper || c.isLower

/-- `Category`. -/
def categoryConstraints : TextConstraints where
  normalise := true
  minLength := some 1
  maxLength := some 64
  pattern := "^[A-Za-z0-9_\\-]+$"
  isMatch cs := !cs.isEmpty && cs.all fun c => isAsciiLetter c || c.isDigit || c == '_' || c == '-'

/-- `CorrelationId`. -/
def correlationIdConstraints : TextConstraints where
  normalise := false
  minLength := some 1
  maxLength := some 128
  pattern := "^[A-Za-z0-9._:\\-]+$"
  isMatch cs := !cs.isEmpty && cs.all fun c => isAsciiLetter c || c.isDigit || ['.', '_', ':', '-'].contains c

/-- `CurrencyCode`. -/
def currencyConstraints : TextConstraints where
  normalise := true
  minLength := none
  maxLength := none
  pattern := "^[A-Za-z]\x7b3\x7d$"
  isMatch cs := decide (cs.length = 3) && cs.all isAsciiLetter

/-- `Channel`. -/
def channelConstraints : TextConstraints where
  normalise := true
  minLength := some 2
  maxLength := some 32
  pattern := "^[A-Za-z_]+$"
  isMatch cs := !cs.isEmpty && cs.all fun c => isAsciiLetter c || c == '_'

/-- `CountryCode`. -/
def countryConstraints : TextConstraints where
  normalise := true
  minLength := none
  maxLength := none
  pattern := "^[A-Za-z]\x7b2\x7d$"
  isMatch cs := decide (cs.length = 2) && cs.all isAsciiLetter

/-- Python's `value == 1`, which `True` and `Decimal("1.0")` are too. -/
def DecimalJson.isOne : DecimalJson → Bool
  | .int n => decide (n = 1)
  | .bool b => b
  | .decimal d => d.eqv (.ofInt 1)
  | _ => false

/-- `Literal[1]`, which compares by value. -/
def checkSchemaVersion (value : DecimalJson) : Checked Unit :=
  if DecimalJson.isOne value then .ok () else .fail "Input should be 1"

/-- `Literal["TransactionCreated"]`. -/
def checkEventType : DecimalJson → Checked Unit
  | .str s =>
    match PyStr.toText? s with
    | none => .fail "Input should be a valid string, unable to parse raw data as a unicode string"
    | some text => if text = "TransactionCreated" then .ok () else .fail "Input should be 'TransactionCreated'"
  | _ => .fail "Input should be 'TransactionCreated'"

/-! ## Fields -/

/-- The value under a key of a decoded object. -/
def DecimalJson.lookup (entries : List (PyStr × DecimalJson)) (key : String) : Option DecimalJson :=
  (entries.find? fun entry => entry.1 == PyStr.ofString key).map (·.2)

/-- A required field of an event. -/
def requiredField {α : Type} (entries : List (PyStr × DecimalJson)) (name : String) (check : DecimalJson → Checked α) :
    Checked α :=
  match DecimalJson.lookup entries name with
  | none => (Checked.fail "Field required").at name
  | some value => (check value).at name

/-- A field of an event that may be left out or be null. -/
def optionalField {α : Type} (entries : List (PyStr × DecimalJson)) (name : String) (check : DecimalJson → Checked α) :
    Checked (Option α) :=
  match DecimalJson.lookup entries name with
  | none => .ok none
  | some .null => .ok none
  | some value =>
    match (check value).at name with
    | .ok a => .ok (some a)
    | .error errors => .error errors

/-- `Enrichment`. -/
def checkEnrichment (reader : EventReader) : DecimalJson → Checked Enrichment
  | .obj entries => do
    let ((((distance, minutes), spend), merchant), travel) ←
      ((((optionalField entries "distance_from_last_tx_km" (rejectFloat fun v => .ofReader (reader.quantity 12 3 v))).both
        (optionalField entries "minutes_since_last_tx" fun v => .ofReader (reader.natural v))).both
        (optionalField entries "user_historical_avg_spend" (rejectFloat fun v => .ofReader (reader.quantity 18 2 v)))).both
        (optionalField entries "is_new_merchant_for_user" fun v => .ofReader (reader.boolean v))).both
        (optionalField entries "is_travel_itinerary_active" fun v => .ofReader (reader.boolean v))
    return ⟨distance, minutes, spend, merchant, travel⟩
  | _ => .fail "Input should be a valid dictionary or instance of Enrichment"

/-- `occurred_at`, which `_normalise_timezone` converts to UTC: `none` when the conversion raises `OverflowError`. -/
def checkOccurredAt (reader : EventReader) (entries : List (PyStr × DecimalJson)) : Option (Checked Timestamp) :=
  match requiredField entries "occurred_at" fun v => .ofReader (reader.aware v) with
  | .error errors => some (.error errors)
  | .ok aware => aware.astimezone.map .ok

/-- The fields of an event, given what became of `occurred_at`. -/
def checkFields (reader : EventReader) (entries : List (PyStr × DecimalJson)) (occurredAt : Checked Timestamp) :
    Checked TransactionCreatedV1 := do
  let (((((((((((_, _), transactionId), userId), amount), currency), category), occurredAt), channel), country), correlationId),
      enrichment) ←
    (((((((((((requiredField entries "schema_version" checkSchemaVersion).both
      (requiredField entries "event_type" checkEventType)).both
      (requiredField entries "transaction_id" fun v => .ofReader (reader.uuid v))).both
      (requiredField entries "user_id" fun v => .ofReader (reader.uuid v))).both
      (requiredField entries "amount" (rejectFloat fun v => .ofReader (reader.money v)))).both
      (requiredField entries "currency" (checkText currencyConstraints))).both
      (requiredField entries "category" (checkText categoryConstraints))).both
      occurredAt).both
      (optionalField entries "channel" (checkText channelConstraints))).both
      (optionalField entries "country" (checkText countryConstraints))).both
      (optionalField entries "correlation_id" (checkText correlationIdConstraints))).both
      (optionalField entries "enrichment" (checkEnrichment reader))
  return { transactionId, userId, amount, currency, category, occurredAt, channel, country, correlationId, enrichment }

/-- `TransactionCreatedV1.model_validate`: `none` when an `OverflowError` leaves it. A validator's `ValueError` is one of the
errors found; any other exception of one ends the validation at once. -/
def TransactionCreatedV1.modelValidate (reader : EventReader) (entries : List (PyStr × DecimalJson)) :
    Option (Checked TransactionCreatedV1) := (checkOccurredAt reader entries).map (checkFields reader entries)

/-! ## `parse_transaction_event` -/

/-- `MAX_EVENT_BYTES`. -/
def maxEventBytes : ℕ := 64 * 1024

/-- What leaves `parse_transaction_event`. The first two are its documented errors, with their field-level details. -/
inductive EventError where
  | invalidEvent (message : String) (details : List (String × String))
  | unsupportedSchemaVersion (message : String) (details : List (String × String))
  /-- A list or a dict was looked up in a frozenset. -/
  | typeError
  | valueError
  | invalidOperation
  | recursionError
  | overflowError
  deriving DecidableEq, Repr

/-- The exception it is. -/
def EventError.toPyException : EventError → PyException
  | .invalidEvent _ _ => .error .invalidEventError
  | .unsupportedSchemaVersion _ _ => .error .unsupportedSchemaVersionError
  | .typeError => .error (.other "TypeError")
  | .valueError => .error (.other "ValueError")
  | .invalidOperation => .error (.other "InvalidOperation")
  | .recursionError => .error (.other "RecursionError")
  | .overflowError => .error (.other "OverflowError")

/-- Whether it is an `InvalidEventError`; an unsupported schema version is one. -/
def EventError.isInvalidEvent : EventError → Bool
  | .invalidEvent _ _ | .unsupportedSchemaVersion _ _ => true
  | _ => false

/-- An error of `json.loads`: the two that are caught become an `InvalidEventError`. -/
def EventError.ofLoads : LoadsError → EventError
  | .unicodeDecodeError => .invalidEvent "Event payload is not valid JSON: UnicodeDecodeError" []
  | .jsonDecodeError => .invalidEvent "Event payload is not valid JSON: JSONDecodeError" []
  | .valueError => .valueError
  | .invalidOperation => .invalidOperation
  | .recursionError => .recursionError

/-- `version in SUPPORTED_SCHEMA_VERSIONS`, which compares by value and needs a hash: `none` when there is none. -/
def supportedVersion : Option DecimalJson → Option Bool
  | none => some false
  | some (.arr _) => none
  | some (.obj _) => none
  | some value => some (DecimalJson.isOne value)

/-- The part of `parse_transaction_event` after the decoding. -/
def parseDocument (reader : EventReader) : DecimalJson → Except EventError TransactionCreatedV1
  | .obj entries =>
    match supportedVersion (DecimalJson.lookup entries "schema_version") with
    | none => .error .typeError
    | some false =>
      .error (.unsupportedSchemaVersion "Unsupported event schema version" [("schema_version", "supported versions: [1]")])
    | some true =>
      match TransactionCreatedV1.modelValidate reader entries with
      | none => .error .overflowError
      | some (.ok event) => .ok event
      | some (.error errors) =>
        .error (.invalidEvent "Event failed schema validation"
          (errors.map fun e => (if e.loc = [] then "event" else ".".intercalate e.loc, e.message)))
  | _ => .error (.invalidEvent "Event payload must be a JSON object" [])

/-- `parse_transaction_event`. `levels` of nested JSON are within the interpreter's recursion limit. -/
def parseTransactionEvent (reader : EventReader) (levels : ℕ) : Option (List UInt8) → Except EventError TransactionCreatedV1
  | none => .error (.invalidEvent "Event payload is empty" [])
  | some raw =>
    if raw = [] then .error (.invalidEvent "Event payload is empty" [])
    else if maxEventBytes < raw.length then
      .error (.invalidEvent ("Event payload exceeds " ++ toString maxEventBytes ++ " bytes") [])
    else
      match JsonDecode.loads levels raw with
      | .error e => .error (.ofLoads e)
      | .ok document => parseDocument reader document

end FraudDetection
