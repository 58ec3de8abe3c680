import FraudDetection.Parsing

/-!
# What leaves `parse_transaction_event`

The parser documents one error, `InvalidEventError`, which is permanent. Here: exactly which messages make another exception
escape. Three kinds of number or nesting do so inside `json.loads`, a `schema_version` without a hash does so in the version check,
and a timestamp near an end of the calendar does so in the conversion to UTC.
-/

namespace FraudDetection

open JsonDecode

/-- An event, or an `InvalidEventError`, which the worker takes for permanent. -/
def FailsAsDocumented : Except EventError TransactionCreatedV1 → Prop
  | .ok _ => True
  | .error e => e.isInvalidEvent = true ∧ classifyFailure e.toPyException = .permanent

/-- The errors of `json.loads` that are neither a `UnicodeDecodeError` nor a `JSONDecodeError`: an integer of more than 4300 digits,
an exponent `Decimal` cannot hold, nesting beyond the recursion limit. -/
def Escapes (e : LoadsError) : Prop := e = .valueError ∨ e = .invalidOperation ∨ e = .recursionError

/-- `schema_version` is a list or an object. -/
def UnhashableVersion (entries : List (PyStr × DecimalJson)) : Prop :=
  (∃ items, DecimalJson.lookup entries "schema_version" = some (.arr items)) ∨
    ∃ object, DecimalJson.lookup entries "schema_version" = some (.obj object)

/-- `schema_version` is 1, and `occurred_at` is a timestamp that no `datetime` in UTC can hold. -/
def UtcOutOfRange (reader : EventReader) (entries : List (PyStr × DecimalJson)) : Prop :=
  supportedVersion (DecimalJson.lookup entries "schema_version") = some true ∧
    ∃ value aware, DecimalJson.lookup entries "occurred_at" = some value ∧ reader.aware value = .ok aware ∧
      ¬(datetimeMin ≤ aware.instant ∧ aware.instant ≤ datetimeMax)

/-- A message that an exception escapes on. -/
def Poisonous (reader : EventReader) (levels : ℕ) (raw : List UInt8) : Prop :=
  match loads levels raw with
  | .error e => Escapes e
  | .ok (.obj entries) => UnhashableVersion entries ∨ UtcOutOfRange reader entries
  | .ok _ => False

namespace ParsingAux

/-- The documented errors are those that are an `InvalidEventError`: each is permanent. -/
theorem failsAsDocumented_error (e : EventError) : FailsAsDocumented (.error e) ↔ e.isInvalidEvent = true := by
  cases e <;> simp [FailsAsDocumented, EventError.isInvalidEvent, EventError.toPyException, classifyFailure,
    ErrorClass.statesTransient, ErrorClass.statesPermanent]

theorem isInvalidEvent_ofLoads (e : LoadsError) : (EventError.ofLoads e).isInvalidEvent = true ↔ ¬Escapes e := by
  cases e <;> simp [EventError.ofLoads, EventError.isInvalidEvent, Escapes]

/-- The version check has no answer exactly for a list or an object. -/
theorem supportedVersion_none {entries : List (PyStr × DecimalJson)} :
    supportedVersion (DecimalJson.lookup entries "schema_version") = none ↔ UnhashableVersion entries := by
  unfold UnhashableVersion
  cases DecimalJson.lookup entries "schema_version" with
  | none => simp [supportedVersion]
  | some value => cases value <;> simp [supportedVersion]

theorem datetimeOf_none {t : ℤ} : datetimeOf t = none ↔ ¬(datetimeMin ≤ t ∧ t ≤ datetimeMax) := by
  unfold datetimeOf
  split <;> simp_all

/-- Validation ends in an `OverflowError` exactly when `occurred_at` is read and cannot be converted. -/
theorem modelValidate_none {reader : EventReader} {entries : List (PyStr × DecimalJson)} :
    TransactionCreatedV1.modelValidate reader entries = none ↔
      ∃ value aware, DecimalJson.lookup entries "occurred_at" = some value ∧ reader.aware value = .ok aware ∧
        ¬(datetimeMin ≤ aware.instant ∧ aware.instant ≤ datetimeMax) := by
  unfold TransactionCreatedV1.modelValidate checkOccurredAt requiredField
  rw [Option.map_eq_none_iff]
  cases hv : DecimalJson.lookup entries "occurred_at" with
  | none => simp [Checked.fail, Checked.at]
  | some value =>
    cases hr : reader.aware value with
    | error message => simp [hr, Checked.ofReader, Checked.fail, Checked.at]
    | ok aware => simp [hr, Checked.ofReader, Checked.at, AwareDatetime.astimezone, datetimeOf_none]

/-- The part after the decoding. -/
theorem parseDocument_failsAsDocumented_iff (reader : EventReader) (document : DecimalJson) :
    FailsAsDocumented (parseDocument reader document) ↔
      ∀ entries, document = .obj entries → ¬(UnhashableVersion entries ∨ UtcOutOfRange reader entries) := by
  cases document with
  | obj entries =>
    simp only [DecimalJson.obj.injEq, forall_eq', parseDocument]
    rw [← supportedVersion_none]
    unfold UtcOutOfRange
    rw [← modelValidate_none]
    cases supportedVersion (DecimalJson.lookup entries "schema_version") with
    | none => simp [failsAsDocumented_error, EventError.isInvalidEvent]
    | some supported =>
      cases supported with
      | false => simp [failsAsDocumented_error, EventError.isInvalidEvent]
      | true =>
        cases TransactionCreatedV1.modelValidate reader entries with
        | none => simp [failsAsDocumented_error, EventError.isInvalidEvent]
        | some checked =>
          cases checked with
          | error errors => simp [failsAsDocumented_error, EventError.isInvalidEvent]
          | ok event => simp [FailsAsDocumented]
  | _ => simp [parseDocument, failsAsDocumented_error, EventError.isInvalidEvent]

/-- No text is no JSON. -/
theorem loads_nil (levels : ℕ) : loads levels [] = .error .jsonDecodeError := by
  cases levels <;> rfl

/-- A value that decodes, and is no longer than a message may be, is parsed as what it decodes to. -/
theorem parse_loads (reader : EventReader) {levels : ℕ} {raw : List UInt8} {document : DecimalJson}
    (hloads : loads levels raw = .ok document) (hlength : raw.length ≤ maxEventBytes) :
    parseTransactionEvent reader levels (some raw) = parseDocument reader document := by
  have hne : raw ≠ [] := by
    rintro rfl
    rw [loads_nil] at hloads
    cases hloads
  unfold parseTransactionEvent
  simp only [hne, not_lt.mpr hlength, if_false, hloads]

end ParsingAux

open ParsingAux

/-- For every message value, `parse_transaction_event` returns an event or raises an `InvalidEventError`, which is permanent, exactly
when the value is missing, oversized, or not poisonous. -/
theorem parse_failsAsDocumented_iff (reader : EventReader) (levels : ℕ) (value : Option (List UInt8)) :
    FailsAsDocumented (parseTransactionEvent reader levels value) ↔
      ∀ raw, value = some raw → raw.length ≤ maxEventBytes → ¬Poisonous reader levels raw := by
  cases value with
  | none => simp [parseTransactionEvent, failsAsDocumented_error, EventError.isInvalidEvent]
  | some raw =>
    simp only [Option.some.injEq, forall_eq', parseTransactionEvent]
    by_cases hnil : raw = []
    · subst hnil
      simp [failsAsDocumented_error, EventError.isInvalidEvent, Poisonous, loads_nil, Escapes]
    · rw [if_neg hnil]
      by_cases hlong : maxEventBytes < raw.length
      · rw [if_pos hlong, failsAsDocumented_error]
        exact ⟨fun _ h => absurd h (by omega), fun _ => rfl⟩
      · rw [if_neg hlong]
        have hlen : raw.length ≤ maxEventBytes := by omega
        unfold Poisonous
        cases loads levels raw with
        | error e => simp only [failsAsDocumented_error, isInvalidEvent_ofLoads, hlen, true_imp_iff]
        | ok document =>
          simp only [parseDocument_failsAsDocumented_iff, hlen, true_imp_iff]
          cases document <;> simp

namespace ParsingExample

/-- A reader of fields that refuses every value. -/
def reader : EventReader where
  uuid _ := .error "Input should be a valid UUID"
  money _ := .error "Decimal input should be an integer, float, string or Decimal object"
  quantity _ _ _ := .error "Decimal input should be an integer, float, string or Decimal object"
  natural _ := .error "Input should be a valid integer"
  boolean _ := .error "Input should be a valid boolean"
  aware _ := .error "Input should be a valid datetime"

/-- The bytes of a text in ASCII. -/
def ascii (s : String) : List UInt8 := s.toList.map fun c => UInt8.ofNat c.toNat

/-- The message `{"schema_version": []}`. -/
def unhashable : List UInt8 := ascii "\x7b\"schema_version\": []\x7d"

/-- Its code points, which are its bytes. -/
def unhashableText : PyStr :=
  [0x7B, 0x22, 115, 99, 104, 101, 109, 97, 95, 118, 101, 114, 115, 105, 111, 110, 0x22, 0x3A, 0x20, 0x5B, 0x5D, 0x7D]

theorem unhashable_bytes : unhashable.map UInt8.toNat = unhashableText := rfl

theorem unhashable_scan : scanOnceWith parseDecimal 1000 unhashableText =
    .ok (.obj [([115, 99, 104, 101, 109, 97, 95, 118, 101, 114, 115, 105, 111, 110], .arr [])], []) := rfl

/-- What it decodes to. -/
theorem unhashable_loads : loads 1000 unhashable = .ok (.obj [(PyStr.ofString "schema_version", .arr [])]) := by
  have htext : decodeBytes unhashableText = some unhashableText := rfl
  have hspace : skipSpace unhashableText = unhashableText := rfl
  have hkey : PyStr.ofString "schema_version" = [115, 99, 104, 101, 109, 97, 95, 118, 101, 114, 115, 105, 111, 110] := rfl
  unfold loads loadsWith
  rw [unhashable_bytes, htext]
  simp only [hspace, unhashable_scan, hkey, Except.ok_bind, skipSpace, if_true, Except.pure_def]

end ParsingExample

open ParsingExample in
/-- The message `{"schema_version": []}` makes a `TypeError` escape: a list has no hash. -/
theorem parse_failsAsDocumented_false : ¬FailsAsDocumented (parseTransactionEvent reader 1000 (some unhashable)) := by
  have hlength : unhashable.length = 22 := by simp [unhashable, ascii]
  have hshort : unhashable.length ≤ maxEventBytes := by
    rw [hlength]
    decide
  have hparse : parseTransactionEvent reader 1000 (some unhashable) = .error .typeError := by
    rw [parse_loads reader unhashable_loads hshort]
    simp [parseDocument, DecimalJson.lookup, supportedVersion]
  rw [hparse, failsAsDocumented_error]
  simp [EventError.isInvalidEvent]

end FraudDetection
