import FraudDetection.Parsing
import FraudDetection.Lib.Base64
import FraudDetection.Lib.HexText
import FraudDetection.Lib.IsoFormat

/-!
# Cursors

`PageCursor`, which writes the position of a page as an opaque token and reads a token back. A token is in the caller's hands: it may
hold any JSON value, of which only an object with a time under `o` and an id under `t` is a cursor.
-/

namespace FraudDetection

/-! ## Ids -/

/-- `str(transaction_id)`. -/
def Uuid.text (id : Uuid) : PyStr :=
  let hex := FixedDigits.write 16 HexText.hexChar 32 id.value.toNat
  hex.take 8 ++ 0x2D :: ((hex.drop 8).take 4 ++ 0x2D :: ((hex.drop 12).take 4 ++ 0x2D :: ((hex.drop 16).take 4 ++ 0x2D ::
    hex.drop 20)))

/-- `text.replace(found, "")`, where `skip` characters still belong to what was found. -/
def removeAll (found : PyStr) : ℕ → PyStr → PyStr
  | _, [] => []
  | skip + 1, _ :: rest => removeAll found skip rest
  | 0, c :: rest => if found <+: c :: rest then removeAll found (found.length - 1) rest else c :: removeAll found 0 rest

/-- `UUID(text)`: `none` is a `ValueError`. -/
def Uuid.ofText (text : PyStr) : Option Uuid :=
  let plain := removeAll (PyStr.ofString "uuid:") 0 (removeAll (PyStr.ofString "urn:") 0 text)
  let hex := (HexText.strip (fun c => c == 0x7B || c == 0x7D) plain).filter (· ≠ 0x2D)
  if hex.length ≠ 32 then none
  else
    match HexText.parseInt hex with
    | none => none
    | some n => if 0 ≤ n ∧ n < 2 ^ 128 then some ⟨.ofInt 128 n⟩ else none

/-! ## `PageCursor` -/

/-- `PageCursor`: the sort key of the last row on the previous page. -/
structure PageCursor where
  occurredAt : Datetime
  transactionId : Uuid
  deriving DecidableEq, Repr

/-- An aware datetime, as a `datetime`. -/
def AwareDatetime.toDatetime (d : AwareDatetime) : Datetime := ⟨d.wall, some (d.offset * 1000000)⟩

/-- What leaves `PageCursor.decode`. -/
inductive CursorError where
  /-- `ValueError("cursor is malformed")`. -/
  | valueError
  /-- `UUID` was given a value that is no string, and not `None`. -/
  | attributeError
  /-- `json.loads` met more nesting than the interpreter's stack has room for. -/
  | recursionError
  deriving DecidableEq, Repr

namespace PageCursor

open JsonDecode (dumpsString)

/-- `json.dumps({"o": …, "t": …})`. -/
def dumps (o t : PyStr) : PyStr :=
  0x7B :: (dumpsString (PyStr.ofString "o") ++ 0x3A :: 0x20 :: (dumpsString o ++ 0x2C :: 0x20 ::
    (dumpsString (PyStr.ofString "t") ++ 0x3A :: 0x20 :: (dumpsString t ++ [0x7D]))))

/-- `PageCursor.encode`. The text is in ASCII, so its bytes are its characters. -/
def encode (cursor : PageCursor) : PyStr :=
  Base64.unpad (Base64.encode (dumps (IsoFormat.isoformat cursor.occurredAt) cursor.transactionId.text))

/-- `json.loads(base64.urlsafe_b64decode(padded.encode("ascii")))`, where `levels` of nesting are within the recursion limit. -/
def payload (levels : ℕ) (token : PyStr) : Except CursorError DecimalJson :=
  if token.all fun c => decide (c < 128) then
    match Base64.decode (Base64.repad token) with
    | none => .error .valueError
    | some raw =>
      match JsonDecode.loadsWith JsonDecode.keepFloat levels (raw.map UInt8.ofNat) with
      | .ok payload => .ok payload
      | .error .recursionError => .error .recursionError
      | .error _ => .error .valueError
  else .error .valueError

/-- `cls(occurred_at=datetime.fromisoformat(payload["o"]), transaction_id=UUID(payload["t"]))`. -/
def ofPayload : DecimalJson → Except CursorError PageCursor
  | .obj entries =>
    match DecimalJson.lookup entries "o" with
    | some (.str o) =>
      match IsoFormat.fromisoformat o with
      | none => .error .valueError
      | some occurredAt =>
        match DecimalJson.lookup entries "t" with
        | some (.str t) =>
          match Uuid.ofText t with
          | none => .error .valueError
          | some transactionId => .ok ⟨occurredAt, transactionId⟩
        | none | some .null => .error .valueError
        | some _ => .error .attributeError
    | _ => .error .valueError
  | _ => .error .valueError

/-- `PageCursor.decode`. -/
def decode (levels : ℕ) (token : PyStr) : Except CursorError PageCursor := do
  ofPayload (← payload levels token)

end PageCursor

end FraudDetection
