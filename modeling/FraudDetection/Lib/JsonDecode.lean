import FraudDetection.Lib.Json
import FraudDetection.Lib.Except

/-!
# Decoding JSON bytes as Python does

`json.loads`: the encoding is found from the first bytes, the bytes are decoded with lone surrogates let through, and one scan reads
one value. A whole number becomes an `int`, any other number what `parse_float` makes of it, and `NaN` and the infinities a `float`.
Every way a decoding can fail has its own error, because only two of them are subclasses that callers catch.

A nested value is one level of recursion, of which the interpreter allows some number.
-/

/-- A decoded JSON value whose numbers are whole (`int`) or decimal. -/
inductive DecimalJson where
  | null
  | bool (value : Bool)
  | int (value : ℤ)
  | decimal (value : Decimal)
  /-- `NaN`, `Infinity` and `-Infinity`. -/
  | float (value : PyFloat)
  | str (value : PyStr)
  | arr (items : List DecimalJson)
  | obj (entries : List (PyStr × DecimalJson))
  deriving Repr

/-- What `json.loads` can raise. -/
inductive LoadsError where
  | unicodeDecodeError
  | jsonDecodeError
  /-- An integer literal of more than 4300 digits. -/
  | valueError
  /-- A number whose exponent `Decimal` cannot hold. -/
  | invalidOperation
  | recursionError
  deriving DecidableEq, Repr

namespace JsonDecode

/-! ## Bytes to text -/

/-- Whether a byte continues a UTF-8 sequence. -/
def continues (b : ℕ) : Bool := decide (0x80 ≤ b ∧ b < 0xC0)

/-- UTF-8, with surrogates let through. -/
def decodeUtf8 : List ℕ → Option PyStr
  | [] => some []
  | a :: rest =>
    if a < 0x80 then (decodeUtf8 rest).map (a :: ·)
    else if 0xC2 ≤ a ∧ a < 0xE0 then
      match rest with
      | b :: rest =>
        if continues b then (decodeUtf8 rest).map (((a - 0xC0) * 0x40 + (b - 0x80)) :: ·) else none
      | _ => none
    else if 0xE0 ≤ a ∧ a < 0xF0 then
      match rest with
      | b :: c :: rest =>
        let n := ((a - 0xE0) * 0x40 + (b - 0x80)) * 0x40 + (c - 0x80)
        if continues b && continues c && decide (0x800 ≤ n) then (decodeUtf8 rest).map (n :: ·) else none
      | _ => none
    else if 0xF0 ≤ a ∧ a < 0xF5 then
      match rest with
      | b :: c :: d :: rest =>
        let n := (((a - 0xF0) * 0x40 + (b - 0x80)) * 0x40 + (c - 0x80)) * 0x40 + (d - 0x80)
        if continues b && continues c && continues d && decide (0x10000 ≤ n ∧ n < 0x110000) then
          (decodeUtf8 rest).map (n :: ·)
        else none
      | _ => none
    else none

/-- The code point of a surrogate pair. -/
def joinSurrogates (high low : ℕ) : ℕ := 0x10000 + (high - 0xD800) * 0x400 + (low - 0xDC00)

/-- UTF-16, with lone surrogates let through. -/
def decodeUtf16 (bigEndian : Bool) : List ℕ → Option PyStr
  | [] => some []
  | [_] => none
  | a :: b :: rest =>
    let unit := if bigEndian then a * 0x100 + b else b * 0x100 + a
    match rest with
    | c :: d :: after =>
      let next := if bigEndian then c * 0x100 + d else d * 0x100 + c
      if isHighSurrogate unit && isLowSurrogate next then (decodeUtf16 bigEndian after).map (joinSurrogates unit next :: ·)
      else (decodeUtf16 bigEndian (c :: d :: after)).map (unit :: ·)
    | rest => (decodeUtf16 bigEndian rest).map (unit :: ·)

/-- UTF-32, with surrogates let through. -/
def decodeUtf32 (bigEndian : Bool) : List ℕ → Option PyStr
  | [] => some []
  | a :: b :: c :: d :: rest =>
    let n := if bigEndian then ((a * 0x100 + b) * 0x100 + c) * 0x100 + d else ((d * 0x100 + c) * 0x100 + b) * 0x100 + a
    if n < 0x110000 then (decodeUtf32 bigEndian rest).map (n :: ·) else none
  | _ => none

/-- `s.decode(detect_encoding(s), "surrogatepass")`: by byte order mark, and without one by where the zero bytes are. -/
def decodeBytes (raw : List ℕ) : Option PyStr :=
  if [0x00, 0x00, 0xFE, 0xFF] <+: raw then decodeUtf32 true (raw.drop 4)
  else if [0xFF, 0xFE, 0x00, 0x00] <+: raw then decodeUtf32 false (raw.drop 4)
  else if [0xFE, 0xFF] <+: raw then decodeUtf16 true (raw.drop 2)
  else if [0xFF, 0xFE] <+: raw then decodeUtf16 false (raw.drop 2)
  else if [0xEF, 0xBB, 0xBF] <+: raw then decodeUtf8 (raw.drop 3)
  else
    match raw with
    | a :: b :: c :: d :: _ =>
      if a = 0 then (if b = 0 then decodeUtf32 true raw else decodeUtf16 true raw)
      else if b = 0 then (if c = 0 ∧ d = 0 then decodeUtf32 false raw else decodeUtf16 false raw)
      else decodeUtf8 raw
    | [a, b] => if a = 0 then decodeUtf16 true raw else if b = 0 then decodeUtf16 false raw else decodeUtf8 raw
    | _ => decodeUtf8 raw

/-! ## Scalars -/

/-- Skip what JSON takes for white space. -/
def skipSpace : PyStr → PyStr
  | [] => []
  | c :: rest => if c = 0x20 ∨ c = 0x09 ∨ c = 0x0A ∨ c = 0x0D then skipSpace rest else c :: rest

/-- What follows a word that a text starts with. -/
def afterWord (word : String) (text : PyStr) : Option PyStr :=
  if PyStr.ofString word <+: text then some (text.drop word.length) else none

/-- The digit a character is in base 16. -/
def hexDigit (c : ℕ) : Option ℕ :=
  if 0x30 ≤ c ∧ c ≤ 0x39 then some (c - 0x30)
  else if 0x61 ≤ c ∧ c ≤ 0x66 then some (c - 0x61 + 10)
  else if 0x41 ≤ c ∧ c ≤ 0x46 then some (c - 0x41 + 10)
  else none

/-- What a one-letter escape stands for. -/
def escaped (c : ℕ) : Option ℕ :=
  (([('"', 0x22), ('\\', 0x5C), ('/', 0x2F), ('b', 0x08), ('f', 0x0C), ('n', 0x0A), ('r', 0x0D), ('t', 0x09)] :
    List (Char × ℕ)).find? fun e => e.1.toNat == c).map (·.2)

/-- Where a scan is in a string: between characters, after a backslash, or in a `\u` escape, after some of its digits. -/
inductive StringState where
  | plain
  | backslash
  | unicode (digits value : ℕ)

/-- The characters of a string and what follows it, each with whether a `\u` escape wrote it. -/
def scanUnits : StringState → PyStr → Option (List (ℕ × Bool) × PyStr)
  | _, [] => none
  | .plain, c :: rest =>
    if c = 0x22 then some ([], rest)
    else if c = 0x5C then scanUnits .backslash rest
    else if c ≤ 0x1F then none
    else (scanUnits .plain rest).map fun (units, rest) => ((c, false) :: units, rest)
  | .backslash, c :: rest =>
    if c = 0x75 then scanUnits (.unicode 0 0) rest
    else
      match escaped c with
      | none => none
      | some e => (scanUnits .plain rest).map fun (units, rest) => ((e, false) :: units, rest)
  | .unicode digits value, c :: rest =>
    match hexDigit c with
    | none => none
    | some h =>
      if digits = 3 then (scanUnits .plain rest).map fun (units, rest) => ((value * 16 + h, true) :: units, rest)
      else scanUnits (.unicode (digits + 1) (value * 16 + h)) rest

/-- Two escapes that are a surrogate pair are one character. -/
def joinEscapes : List (ℕ × Bool) → PyStr
  | (high, true) :: (low, true) :: units =>
    if isHighSurrogate high && isLowSurrogate low then joinSurrogates high low :: joinEscapes units
    else high :: joinEscapes ((low, true) :: units)
  | (c, _) :: units => c :: joinEscapes units
  | [] => []

/-- A string, after its opening quote. -/
def scanString (text : PyStr) : Except LoadsError (PyStr × PyStr) :=
  match scanUnits .plain text with
  | none => .error .jsonDecodeError
  | some (units, rest) => .ok (joinEscapes units, rest)

def isDigit (c : ℕ) : Bool := decide (0x30 ≤ c ∧ c ≤ 0x39)

/-- Some digits, and what follows them. -/
def scanDigits (text : PyStr) : PyStr × PyStr := (text.takeWhile isDigit, text.dropWhile isDigit)

/-- The number some digits write. -/
def digitsValue (digits : PyStr) : ℕ := digits.foldl (fun n c => n * 10 + (c - 0x30)) 0

/-- `sys.get_int_max_str_digits()`. -/
def maxIntDigits : ℕ := 4300

/-- `int(text)`. -/
def intOf (negative : Bool) (digits : PyStr) : Except LoadsError ℤ :=
  if maxIntDigits < digits.length then .error .valueError
  else .ok (if negative then -(digitsValue digits : ℤ) else digitsValue digits)

/-- `Decimal(text)`, of digits and an exponent. It must be exact in the largest context there is. -/
def decimalOf (negative : Bool) (digits : PyStr) (exp : ℤ) : Except LoadsError Decimal :=
  let c := digitsValue digits
  let largest := if c = 0 then exp else exp + Decimal.numDigits c - 1
  if exp < -1999999999999999997 ∨ 999999999999999999 < largest then .error .invalidOperation
  else .ok ⟨if negative then -(c : ℤ) else c, exp⟩

/-- The digits after a point, if it has any. -/
def scanFraction (text : PyStr) : PyStr × PyStr :=
  match text with
  | 0x2E :: rest => if (scanDigits rest).1 = [] then ([], text) else scanDigits rest
  | _ => ([], text)

/-- What follows a sign, if there is one. -/
def afterSign (text : PyStr) : PyStr := if text.head? = some 0x2D ∨ text.head? = some 0x2B then text.drop 1 else text

/-- The exponent after an `e`, if it has any digits. -/
def scanExponent (text : PyStr) : Option ℤ × PyStr :=
  match text with
  | e :: rest =>
    if e = 0x65 ∨ e = 0x45 then
      let (digits, after) := scanDigits (afterSign rest)
      if digits = [] then (none, text)
      else (some (if rest.head? = some 0x2D then -(digitsValue digits : ℤ) else digitsValue digits), after)
    else (none, text)
  | [] => (none, [])

/-- The whole part of a number: one zero, or digits that do not start with one. -/
def scanWhole (text : PyStr) : PyStr × PyStr :=
  match text with
  | 0x30 :: rest => ([0x30], rest)
  | text => scanDigits text

/-- `parse_float=Decimal`, of digits and an exponent. -/
def parseDecimal (negative : Bool) (digits : PyStr) (exp : ℤ) : Except LoadsError DecimalJson := do
  return .decimal (← decimalOf negative digits exp)

/-- No `parse_float`: a `float`, which there is for every number. It is kept as the decimal that was written. -/
def keepFloat (negative : Bool) (digits : PyStr) (exp : ℤ) : Except LoadsError DecimalJson :=
  .ok (.decimal ⟨if negative then -(digitsValue digits : ℤ) else digitsValue digits, exp⟩)

/-- A number, after its sign. -/
def scanUnsignedWith (parseFloat : Bool → PyStr → ℤ → Except LoadsError DecimalJson) (negative : Bool) (text : PyStr) :
    Except LoadsError (DecimalJson × PyStr) :=
  let (whole, afterWhole) := scanWhole text
  if whole = [] then .error .jsonDecodeError
  else
    let (fraction, afterFraction) := scanFraction afterWhole
    let (exponent, rest) := scanExponent afterFraction
    if fraction = [] ∧ exponent = none then do
      return (.int (← intOf negative whole), rest)
    else do
      return (← parseFloat negative (whole ++ fraction) (exponent.getD 0 - fraction.length), rest)

/-- `_match_number`. -/
def scanNumberWith (parseFloat : Bool → PyStr → ℤ → Except LoadsError DecimalJson) (text : PyStr) :
    Except LoadsError (DecimalJson × PyStr) :=
  match text with
  | 0x2D :: rest => scanUnsignedWith parseFloat true rest
  | text => scanUnsignedWith parseFloat false text

/-- The named constants. -/
def constants : List (String × DecimalJson) := [
  ("null", .null), ("true", .bool true), ("false", .bool false), ("NaN", .float .nan), ("Infinity", .float (.inf false)),
  ("-Infinity", .float (.inf true))]

/-- A named constant, if the text starts with one. -/
def scanConstant (text : PyStr) : Option (DecimalJson × PyStr) :=
  constants.findSome? fun (word, value) => (afterWord word text).map fun rest => (value, rest)

/-! ## Values -/

/-- The items of a list up to its end, one or more. `scan` reads a value one level down; `fuel` is more than the text's length. -/
def scanItems (scan : PyStr → Except LoadsError (DecimalJson × PyStr)) :
    ℕ → PyStr → Except LoadsError (List DecimalJson × PyStr)
  | 0, _ => .error .jsonDecodeError
  | fuel + 1, text => do
    let (item, afterItem) ← scan text
    match skipSpace afterItem with
    | [] => .error .jsonDecodeError
    | c :: rest =>
      if c = 0x5D then return ([item], rest)
      else if c = 0x2C then do
        let (items, rest) ← scanItems scan fuel (skipSpace rest)
        return (item :: items, rest)
      else .error .jsonDecodeError

/-- A list, after its opening bracket. -/
def scanArray (scan : PyStr → Except LoadsError (DecimalJson × PyStr)) (text : PyStr) :
    Except LoadsError (DecimalJson × PyStr) :=
  match skipSpace text with
  | [] => .error .jsonDecodeError
  | c :: rest =>
    if c = 0x5D then .ok (.arr [], rest)
    else do
      let (items, rest) ← scanItems scan ((c :: rest).length + 1) (c :: rest)
      return (.arr items, rest)

/-- Give a key a value: a later value of an equal key takes the place of the earlier one. -/
def setEntry (key : PyStr) (value : DecimalJson) : List (PyStr × DecimalJson) → List (PyStr × DecimalJson)
  | [] => [(key, value)]
  | (k, v) :: entries => if k = key then (k, value) :: entries else (k, v) :: setEntry key value entries

/-- The entries of an object up to its end, one or more, added to those before them. -/
def scanEntries (scan : PyStr → Except LoadsError (DecimalJson × PyStr)) :
    ℕ → List (PyStr × DecimalJson) → PyStr → Except LoadsError (List (PyStr × DecimalJson) × PyStr)
  | 0, _, _ => .error .jsonDecodeError
  | fuel + 1, entries, text =>
    match text with
    | [] => .error .jsonDecodeError
    | quote :: text =>
      if quote ≠ 0x22 then .error .jsonDecodeError
      else do
        let (key, afterKey) ← scanString text
        match skipSpace afterKey with
        | [] => .error .jsonDecodeError
        | colon :: text =>
          if colon ≠ 0x3A then .error .jsonDecodeError
          else do
            let (value, afterValue) ← scan (skipSpace text)
            match skipSpace afterValue with
            | [] => .error .jsonDecodeError
            | c :: rest =>
              if c = 0x7D then return (setEntry key value entries, rest)
              else if c = 0x2C then scanEntries scan fuel (setEntry key value entries) (skipSpace rest)
              else .error .jsonDecodeError

/-- An object, after its opening brace. -/
def scanObject (scan : PyStr → Except LoadsError (DecimalJson × PyStr)) (text : PyStr) :
    Except LoadsError (DecimalJson × PyStr) :=
  match skipSpace text with
  | [] => .error .jsonDecodeError
  | c :: rest =>
    if c = 0x7D then .ok (.obj [], rest)
    else do
      let (entries, rest) ← scanEntries scan ((c :: rest).length + 1) [] (c :: rest)
      return (.obj entries, rest)

/-- `scan_once`: the value a text starts with, and what follows it. `levels` is how many levels of nesting are still allowed. -/
def scanOnceWith (parseFloat : Bool → PyStr → ℤ → Except LoadsError DecimalJson) :
    ℕ → PyStr → Except LoadsError (DecimalJson × PyStr)
  | levels, text =>
    match text with
    | [] => .error .jsonDecodeError
    | c :: rest =>
      if c = 0x22 then do
        let (s, rest) ← scanString rest
        return (.str s, rest)
      else if c = 0x5B ∨ c = 0x7B then
        match levels with
        | 0 => .error .recursionError
        | levels + 1 =>
          if c = 0x5B then scanArray (scanOnceWith parseFloat levels) rest else scanObject (scanOnceWith parseFloat levels) rest
      else
        match scanConstant text with
        | some (value, rest) => .ok (value, rest)
        | none => scanNumberWith parseFloat text

/-- `json.loads(raw)`, where `levels` of nesting are within the recursion limit. -/
def loadsWith (parseFloat : Bool → PyStr → ℤ → Except LoadsError DecimalJson) (levels : ℕ) (raw : List UInt8) :
    Except LoadsError DecimalJson :=
  match decodeBytes (raw.map UInt8.toNat) with
  | none => .error .unicodeDecodeError
  | some text => do
    let (value, rest) ← scanOnceWith parseFloat levels (skipSpace text)
    if skipSpace rest = [] then return value else .error .jsonDecodeError

/-- `json.loads(raw, parse_float=Decimal)`. -/
def loads (levels : ℕ) (raw : List UInt8) : Except LoadsError DecimalJson := loadsWith parseDecimal levels raw

/-! ## What a scan leaves is shorter -/

/-- A scan that takes at least one character when it succeeds. -/
def Consumes (scan : PyStr → Except LoadsError (DecimalJson × PyStr)) : Prop :=
  ∀ {text rest : PyStr} {value : DecimalJson}, scan text = .ok (value, rest) → rest.length < text.length

theorem skipSpace_length_le (text : PyStr) : (skipSpace text).length ≤ text.length := by
  induction text with
  | nil => exact Nat.le_refl _
  | cons c text ih =>
    rw [skipSpace]
    split
    · rw [List.length_cons]
      omega
    · exact Nat.le_refl _

theorem skipSpace_cons_lt {c : ℕ} {text rest : PyStr} (h : skipSpace text = c :: rest) : rest.length < text.length := by
  have := skipSpace_length_le text
  rw [h, List.length_cons] at this
  omega

theorem scanUnits_lt {text : PyStr} :
    ∀ {state : StringState} {units : List (ℕ × Bool)} {rest : PyStr},
      scanUnits state text = some (units, rest) → rest.length < text.length := by
  induction text with
  | nil => intro state units rest h; cases state <;> cases h
  | cons c text ih =>
    intro state units rest h
    have later : ∀ {state : StringState} {f : List (ℕ × Bool) → List (ℕ × Bool)},
        ((scanUnits state text).map fun (us, r) => (f us, r)) = some (units, rest) → rest.length < (c :: text).length := by
      intro state f h
      obtain ⟨⟨us, r⟩, hs, h⟩ := Option.map_eq_some_iff.mp h
      cases h
      have := ih hs
      rw [List.length_cons]
      omega
    have next : ∀ {state : StringState}, scanUnits state text = some (units, rest) → rest.length < (c :: text).length := by
      intro state h
      have := ih h
      rw [List.length_cons]
      omega
    cases state with
    | plain =>
      rw [scanUnits] at h
      split at h
      · cases h
        exact Nat.lt_succ_self _
      · split at h
        · exact next h
        · split at h
          · cases h
          · exact later (f := ((c, false) :: ·)) h
    | backslash =>
      rw [scanUnits] at h
      split at h
      · exact next h
      · split at h
        · cases h
        · exact later (f := ((_, false) :: ·)) h
    | unicode digits value =>
      rw [scanUnits] at h
      split at h
      · cases h
      · split at h
        · exact later (f := ((_, true) :: ·)) h
        · exact next h

theorem scanString_lt {text rest : PyStr} {s : PyStr} (h : scanString text = .ok (s, rest)) : rest.length < text.length := by
  unfold scanString at h
  split at h
  · cases h
  · rename_i units r hu
    cases h
    exact scanUnits_lt hu

theorem afterWord_lt {word : String} {text rest : PyStr} (hw : word ≠ "") (h : afterWord word text = some rest) :
    rest.length < text.length := by
  unfold afterWord at h
  split at h
  · rename_i hp
    cases h
    have hlen := hp.length_le
    rw [PyStr.ofString, List.length_map, String.length_toList] at hlen
    have hpos : 0 < word.length := Nat.pos_of_ne_zero fun h0 => hw (String.length_eq_zero_iff.mp h0)
    rw [List.length_drop]
    omega
  · cases h

theorem scanConstant_lt {text rest : PyStr} {value : DecimalJson} (h : scanConstant text = some (value, rest)) :
    rest.length < text.length := by
  obtain ⟨⟨word, v⟩, hm, h⟩ := List.exists_of_findSome?_eq_some h
  obtain ⟨r, hr, h⟩ := Option.map_eq_some_iff.mp h
  cases h
  refine afterWord_lt ?_ hr
  rintro rfl
  simp [constants] at hm

theorem scanDigits_length (text : PyStr) : (scanDigits text).1.length + (scanDigits text).2.length = text.length := by
  have := congrArg List.length (List.takeWhile_append_dropWhile (p := isDigit) (l := text))
  rw [List.length_append] at this
  exact this

theorem scanWhole_lt {text : PyStr} (h : (scanWhole text).1 ≠ []) : (scanWhole text).2.length < text.length := by
  unfold scanWhole at h ⊢
  split at h
  · exact Nat.lt_succ_self _
  · have := scanDigits_length text
    have := List.length_pos_of_ne_nil h
    omega

theorem scanFraction_le (text : PyStr) : (scanFraction text).2.length ≤ text.length := by
  unfold scanFraction
  split
  · rename_i rest
    have := scanDigits_length rest
    split
    · exact Nat.le_refl _
    · rw [List.length_cons]
      omega
  · exact Nat.le_refl _

theorem afterSign_le (text : PyStr) : (afterSign text).length ≤ text.length := by
  unfold afterSign
  split
  · rw [List.length_drop]
    omega
  · exact Nat.le_refl _

theorem scanExponent_le (text : PyStr) : (scanExponent text).2.length ≤ text.length := by
  unfold scanExponent
  split
  · rename_i e rest
    split
    · simp only
      split
      · exact Nat.le_refl _
      · have := scanDigits_length (afterSign rest)
        have := afterSign_le rest
        rw [List.length_cons]
        dsimp only
        omega
    · exact Nat.le_refl _
  · exact Nat.le_refl _

variable {parseFloat : Bool → PyStr → ℤ → Except LoadsError DecimalJson}

theorem scanUnsigned_consumes (negative : Bool) : Consumes (scanUnsignedWith parseFloat negative) := by
  intro text rest value h
  unfold scanUnsignedWith at h
  simp only at h
  split at h
  · cases h
  · rename_i hw
    have h1 := scanWhole_lt hw
    have h2 := scanFraction_le (scanWhole text).2
    have h3 := scanExponent_le (scanFraction (scanWhole text).2).2
    split at h
    · obtain ⟨n, -, h⟩ := Except.bind_eq_ok.mp h
      cases h
      omega
    · obtain ⟨d, -, h⟩ := Except.bind_eq_ok.mp h
      cases h
      omega

theorem scanNumber_consumes : Consumes (scanNumberWith parseFloat) := by
  intro text rest value h
  unfold scanNumberWith at h
  split at h
  · have := scanUnsigned_consumes true h
    rw [List.length_cons]
    omega
  · exact scanUnsigned_consumes false h

variable {scan : PyStr → Except LoadsError (DecimalJson × PyStr)}

theorem scanItems_lt (hscan : Consumes scan) {fuel : ℕ} :
    ∀ {text rest : PyStr} {items : List DecimalJson}, scanItems scan fuel text = .ok (items, rest) → rest.length < text.length := by
  induction fuel with
  | zero => intro text rest items h; cases h
  | succ fuel ih =>
    intro text rest items h
    obtain ⟨⟨item, afterItem⟩, hitem, h⟩ := Except.bind_eq_ok.mp h
    have h1 := hscan hitem
    simp only at h
    split at h
    · cases h
    · rename_i c r hc
      have h2 := skipSpace_cons_lt hc
      split at h
      · cases h
        omega
      · split at h
        · obtain ⟨⟨items', r'⟩, hitems, h⟩ := Except.bind_eq_ok.mp h
          cases h
          have h3 := ih hitems
          have h4 := skipSpace_length_le r
          dsimp only
          omega
        · cases h

theorem scanEntries_lt (hscan : Consumes scan) {fuel : ℕ} :
    ∀ {text rest : PyStr} {entries entries' : List (PyStr × DecimalJson)},
      scanEntries scan fuel entries text = .ok (entries', rest) → rest.length < text.length := by
  induction fuel with
  | zero => intro text rest entries entries' h; cases h
  | succ fuel ih =>
    intro text rest entries entries' h
    cases text with
    | nil => cases h
    | cons quote text =>
      rw [scanEntries] at h
      split at h
      · cases h
      · obtain ⟨⟨key, afterKey⟩, hkey, h⟩ := Except.bind_eq_ok.mp h
        have h1 := scanString_lt hkey
        simp only at h
        split at h
        · cases h
        · rename_i colon t hcolon
          have h2 := skipSpace_cons_lt hcolon
          split at h
          · cases h
          · obtain ⟨⟨value, afterValue⟩, hvalue, h⟩ := Except.bind_eq_ok.mp h
            have h3 := hscan hvalue
            have h4 := skipSpace_length_le t
            simp only at h
            split at h
            · cases h
            · rename_i c r hc
              have h5 := skipSpace_cons_lt hc
              rw [List.length_cons]
              split at h
              · cases h
                omega
              · split at h
                · have h6 := ih h
                  have h7 := skipSpace_length_le r
                  omega
                · cases h

theorem scanArray_consumes (hscan : Consumes scan) : Consumes (scanArray scan) := by
  intro text rest value h
  unfold scanArray at h
  split at h
  · cases h
  · rename_i c r hc
    have h1 := skipSpace_cons_lt hc
    split at h
    · cases h
      omega
    · obtain ⟨⟨items, r'⟩, hitems, h⟩ := Except.bind_eq_ok.mp h
      cases h
      have h2 := scanItems_lt hscan hitems
      rw [List.length_cons] at h2
      omega

theorem scanObject_consumes (hscan : Consumes scan) : Consumes (scanObject scan) := by
  intro text rest value h
  unfold scanObject at h
  split at h
  · cases h
  · rename_i c r hc
    have h1 := skipSpace_cons_lt hc
    split at h
    · cases h
      omega
    · obtain ⟨⟨entries, r'⟩, hentries, h⟩ := Except.bind_eq_ok.mp h
      cases h
      have h2 := scanEntries_lt hscan hentries
      rw [List.length_cons] at h2
      omega

/-- A scan takes at least one character if the scan one level down does. -/
theorem scanOnce_consumes_of {levels : ℕ} (hlower : ∀ lower, levels = lower + 1 → Consumes (scanOnceWith parseFloat lower)) :
    Consumes (scanOnceWith parseFloat levels) := by
  intro text rest value h
  cases text with
  | nil => cases levels <;> cases h
  | cons c text =>
    rw [scanOnceWith.eq_def] at h
    simp only at h
    split at h
    · obtain ⟨⟨s, r⟩, hs, h⟩ := Except.bind_eq_ok.mp h
      cases h
      have := scanString_lt hs
      rw [List.length_cons]
      dsimp only
      omega
    · split at h
      · cases levels with
        | zero => cases h
        | succ lower =>
          rw [List.length_cons]
          simp only at h
          split at h
          · have := scanArray_consumes (hlower lower rfl) h
            omega
          · have := scanObject_consumes (hlower lower rfl) h
            omega
      · split at h
        · rename_i hc
          cases h
          exact scanConstant_lt hc
        · exact scanNumber_consumes h

/-- A value takes at least one character, at every level of nesting. -/
theorem scanOnce_consumes (levels : ℕ) : Consumes (scanOnceWith parseFloat levels) := by
  induction levels with
  | zero => exact scanOnce_consumes_of fun lower h => absurd h (by omega)
  | succ levels ih =>
    refine scanOnce_consumes_of fun lower h => ?_
    obtain rfl : lower = levels := by omega
    exact ih

/-! ## There is always enough fuel -/

/-- Fuel above the length of the text changes nothing: the items end, or an error is found, before it is used up. -/
theorem scanItems_fuel (hscan : Consumes scan) {m : ℕ} :
    ∀ {n : ℕ} {text : PyStr}, text.length < m → text.length < n → scanItems scan m text = scanItems scan n text := by
  induction m with
  | zero => intro n text hm _; omega
  | succ m ih =>
    intro n text hm hn
    cases n with
    | zero => omega
    | succ n =>
      rw [scanItems, scanItems]
      cases hitem : scan text with
      | error e => rfl
      | ok item =>
        obtain ⟨item, afterItem⟩ := item
        have h1 := hscan hitem
        simp only [Except.ok_bind]
        cases hc : skipSpace afterItem with
        | nil => rfl
        | cons c r =>
          have h2 := skipSpace_cons_lt hc
          have h3 := skipSpace_length_le r
          simp only
          rw [ih (n := n) (by omega) (by omega)]

/-- Fuel above the length of the text changes nothing for an object either. -/
theorem scanEntries_fuel (hscan : Consumes scan) {m : ℕ} :
    ∀ {n : ℕ} {entries : List (PyStr × DecimalJson)} {text : PyStr}, text.length < m → text.length < n →
      scanEntries scan m entries text = scanEntries scan n entries text := by
  induction m with
  | zero => intro n entries text hm _; omega
  | succ m ih =>
    intro n entries text hm hn
    cases n with
    | zero => omega
    | succ n =>
      cases text with
      | nil => rfl
      | cons quote text =>
        rw [scanEntries, scanEntries]
        rw [List.length_cons] at hm hn
        cases hkey : scanString text with
        | error e => rfl
        | ok key =>
          obtain ⟨key, afterKey⟩ := key
          have h1 := scanString_lt hkey
          simp only [Except.ok_bind]
          cases hcolon : skipSpace afterKey with
          | nil => rfl
          | cons colon t =>
            have h2 := skipSpace_cons_lt hcolon
            have h3 := skipSpace_length_le t
            simp only
            cases hvalue : scan (skipSpace t) with
            | error e => rfl
            | ok value =>
              obtain ⟨value, afterValue⟩ := value
              have h4 := hscan hvalue
              simp only [Except.ok_bind]
              cases hc : skipSpace afterValue with
              | nil => rfl
              | cons c r =>
                have h5 := skipSpace_cons_lt hc
                have h6 := skipSpace_length_le r
                simp only
                rw [ih (n := n) (by omega) (by omega)]

/-! ## There are enough levels -/

/-- A text has as many bytes as characters, or more. -/
theorem decodeUtf8_length {raw : List ℕ} {text : PyStr} (h : decodeUtf8 raw = some text) : text.length ≤ raw.length := by
  fun_induction decodeUtf8 raw generalizing text
  all_goals first
    | cases h; exact Nat.le_refl _
    | cases h
    | obtain ⟨t, ht, rfl⟩ := Option.map_eq_some_iff.mp h
      rename_i ih
      have := ih ht
      simp only [List.length_cons]
      omega

theorem decodeUtf16_length {bigEndian : Bool} {raw : List ℕ} {text : PyStr} (h : decodeUtf16 bigEndian raw = some text) :
    text.length ≤ raw.length := by
  fun_induction decodeUtf16 bigEndian raw generalizing text
  all_goals first
    | cases h; exact Nat.le_refl _
    | cases h
    | obtain ⟨t, ht, rfl⟩ := Option.map_eq_some_iff.mp h
      rename_i ih
      have := ih ht
      simp only [List.length_cons] at this ⊢
      omega

theorem decodeUtf32_length {bigEndian : Bool} {raw : List ℕ} {text : PyStr} (h : decodeUtf32 bigEndian raw = some text) :
    text.length ≤ raw.length := by
  fun_induction decodeUtf32 bigEndian raw generalizing text
  all_goals first
    | cases h; exact Nat.le_refl _
    | cases h
    | obtain ⟨t, ht, rfl⟩ := Option.map_eq_some_iff.mp h
      rename_i ih
      have := ih ht
      simp only [List.length_cons]
      omega

theorem decodeBytes_length {raw : List ℕ} {text : PyStr} (h : decodeBytes raw = some text) : text.length ≤ raw.length := by
  have hdrop : ∀ n, (raw.drop n).length ≤ raw.length := fun n => (List.drop_sublist n raw).length_le
  unfold decodeBytes at h
  repeat' split at h
  all_goals first
    | exact (decodeUtf8_length h).trans (hdrop _)
    | exact (decodeUtf16_length h).trans (hdrop _)
    | exact (decodeUtf32_length h).trans (hdrop _)
    | exact decodeUtf8_length h
    | exact decodeUtf16_length h
    | exact decodeUtf32_length h

/-- A failure that is not for want of levels. -/
def Shallow (error : LoadsError) : Prop := error ≠ .recursionError

theorem malformed_shallow {α : Type} : (Except.error .jsonDecodeError : Except LoadsError α).FailsOnly Shallow := by
  rw [Except.failsOnly_error]
  exact nofun

theorem scanString_shallow (text : PyStr) : (scanString text).FailsOnly Shallow := by
  unfold scanString
  split
  · exact malformed_shallow
  · exact Except.failsOnly_ok _

theorem scanUnsigned_shallow (hfloat : ∀ negative digits exp, (parseFloat negative digits exp).FailsOnly Shallow) (negative : Bool)
    (text : PyStr) : (scanUnsignedWith parseFloat negative text).FailsOnly Shallow := by
  unfold scanUnsignedWith
  simp only
  split
  · exact malformed_shallow
  · split
    · refine Except.failsOnly_bind.mpr ⟨?_, fun n _ => Except.failsOnly_ok _⟩
      unfold intOf
      split
      · rw [Except.failsOnly_error]
        exact nofun
      · exact Except.failsOnly_ok _
    · exact Except.failsOnly_bind.mpr ⟨hfloat _ _ _, fun value _ => Except.failsOnly_ok _⟩

theorem scanNumber_shallow (hfloat : ∀ negative digits exp, (parseFloat negative digits exp).FailsOnly Shallow) (text : PyStr) :
    (scanNumberWith parseFloat text).FailsOnly Shallow := by
  unfold scanNumberWith
  split
  · exact scanUnsigned_shallow hfloat true _
  · exact scanUnsigned_shallow hfloat false _

theorem scanItems_shallow (hscan : Consumes scan) {length : ℕ}
    (hshallow : ∀ text : PyStr, text.length ≤ length → (scan text).FailsOnly Shallow) {fuel : ℕ} :
    ∀ {text : PyStr}, text.length ≤ length → (scanItems scan fuel text).FailsOnly Shallow := by
  induction fuel with
  | zero =>
    intro text _
    exact malformed_shallow
  | succ fuel ih =>
    intro text hlength
    refine Except.failsOnly_bind.mpr ⟨hshallow text hlength, ?_⟩
    rintro ⟨item, afterItem⟩ hitem
    have h1 := hscan hitem
    simp only
    split
    · exact malformed_shallow
    · rename_i c rest hc
      have h2 := skipSpace_cons_lt hc
      have h3 := skipSpace_length_le rest
      split
      · exact Except.failsOnly_ok _
      · split
        · exact Except.failsOnly_bind.mpr ⟨ih (by omega), fun items _ => Except.failsOnly_ok _⟩
        · exact malformed_shallow

theorem scanEntries_shallow (hscan : Consumes scan) {length : ℕ}
    (hshallow : ∀ text : PyStr, text.length ≤ length → (scan text).FailsOnly Shallow) {fuel : ℕ} :
    ∀ {entries : List (PyStr × DecimalJson)} {text : PyStr}, text.length ≤ length →
      (scanEntries scan fuel entries text).FailsOnly Shallow := by
  induction fuel with
  | zero =>
    intro entries text _
    exact malformed_shallow
  | succ fuel ih =>
    intro entries text hlength
    cases text with
    | nil => exact malformed_shallow
    | cons quote text =>
      rw [List.length_cons] at hlength
      rw [scanEntries]
      split
      · exact malformed_shallow
      · refine Except.failsOnly_bind.mpr ⟨scanString_shallow text, ?_⟩
        rintro ⟨key, afterKey⟩ hkey
        have h1 := scanString_lt hkey
        simp only
        split
        · exact malformed_shallow
        · rename_i colon afterColon hcolon
          have h2 := skipSpace_cons_lt hcolon
          have h3 := skipSpace_length_le afterColon
          split
          · exact malformed_shallow
          · refine Except.failsOnly_bind.mpr ⟨hshallow _ (by omega), ?_⟩
            rintro ⟨value, afterValue⟩ hvalue
            have h4 := hscan hvalue
            simp only
            split
            · exact malformed_shallow
            · rename_i c rest hc
              have h5 := skipSpace_cons_lt hc
              have h6 := skipSpace_length_le rest
              split
              · exact Except.failsOnly_ok _
              · split
                · exact ih (by omega)
                · exact malformed_shallow

theorem scanArray_shallow (hscan : Consumes scan) {text : PyStr}
    (hshallow : ∀ t : PyStr, t.length ≤ text.length → (scan t).FailsOnly Shallow) : (scanArray scan text).FailsOnly Shallow := by
  have hlength := skipSpace_length_le text
  unfold scanArray
  split
  · exact malformed_shallow
  · rename_i c rest hc
    rw [hc] at hlength
    split
    · exact Except.failsOnly_ok _
    · exact Except.failsOnly_bind.mpr ⟨scanItems_shallow hscan hshallow hlength, fun items _ => Except.failsOnly_ok _⟩

theorem scanObject_shallow (hscan : Consumes scan) {text : PyStr}
    (hshallow : ∀ t : PyStr, t.length ≤ text.length → (scan t).FailsOnly Shallow) : (scanObject scan text).FailsOnly Shallow := by
  have hlength := skipSpace_length_le text
  unfold scanObject
  split
  · exact malformed_shallow
  · rename_i c rest hc
    rw [hc] at hlength
    split
    · exact Except.failsOnly_ok _
    · exact Except.failsOnly_bind.mpr ⟨scanEntries_shallow hscan hshallow hlength, fun entries _ => Except.failsOnly_ok _⟩

/-- A text nests no deeper than it is long. -/
theorem scanOnce_shallow (hfloat : ∀ negative digits exp, (parseFloat negative digits exp).FailsOnly Shallow) {levels : ℕ} :
    ∀ {text : PyStr}, text.length ≤ levels → (scanOnceWith parseFloat levels text).FailsOnly Shallow := by
  induction levels with
  | zero =>
    intro text hlength
    rw [List.length_eq_zero_iff.mp (Nat.le_zero.mp hlength)]
    exact malformed_shallow
  | succ levels ih =>
    intro text hlength
    cases text with
    | nil =>
      exact malformed_shallow
    | cons c rest =>
      rw [List.length_cons] at hlength
      rw [scanOnceWith]
      split
      · exact Except.failsOnly_bind.mpr ⟨scanString_shallow rest, fun s _ => Except.failsOnly_ok _⟩
      · split
        · split
          · exact scanArray_shallow (scanOnce_consumes levels) fun t ht => ih (by omega)
          · exact scanObject_shallow (scanOnce_consumes levels) fun t ht => ih (by omega)
        · split
          · exact Except.failsOnly_ok _
          · exact scanNumber_shallow hfloat _

/-- No text that is as long as the levels that are left, or shorter, is nested too deep. -/
theorem loads_shallow (hfloat : ∀ negative digits exp, (parseFloat negative digits exp).FailsOnly Shallow) {levels : ℕ}
    {raw : List UInt8} (h : raw.length ≤ levels) : (loadsWith parseFloat levels raw).FailsOnly Shallow := by
  unfold loadsWith
  split
  · rw [Except.failsOnly_error]
    exact nofun
  · rename_i text htext
    have h1 := decodeBytes_length htext
    have h2 := skipSpace_length_le text
    rw [List.length_map] at h1
    refine Except.failsOnly_bind.mpr ⟨scanOnce_shallow hfloat (by omega), ?_⟩
    rintro ⟨value, rest⟩ _
    simp only
    split
    · exact Except.failsOnly_ok _
    · exact malformed_shallow

/-! ## Plain text -/

theorem decodeUtf8_ascii {raw : List ℕ} (h : ∀ b ∈ raw, b < 0x80) : decodeUtf8 raw = some raw := by
  induction raw with
  | nil => rw [decodeUtf8]
  | cons a rest ih =>
    unfold decodeUtf8
    rw [if_pos (h a List.mem_cons_self), ih fun b hb => h b (List.mem_cons_of_mem a hb)]
    rfl

/-- Bytes that begin with two ASCII characters, none of them zero, are UTF-8. -/
theorem decodeBytes_ascii {a b : ℕ} {raw : List ℕ} (ha : a ≠ 0) (hb : b ≠ 0) (h : ∀ c ∈ a :: b :: raw, c < 0x80) :
    decodeBytes (a :: b :: raw) = some (a :: b :: raw) := by
  have ha' : a < 0x80 := h a List.mem_cons_self
  have hmark : ∀ x y : ℕ, ∀ marks : List ℕ, x = 0 ∨ 0x80 ≤ x → ¬(x :: y :: marks) <+: a :: b :: raw := by
    intro x y marks hx hp
    rw [List.cons_prefix_cons] at hp
    omega
  unfold decodeBytes
  rw [if_neg (hmark _ _ _ (.inl rfl)), if_neg (hmark _ _ _ (.inr (by decide))), if_neg (hmark _ _ _ (.inr (by decide))),
    if_neg (hmark _ _ _ (.inr (by decide))), if_neg (hmark _ _ _ (.inr (by decide)))]
  cases raw with
  | nil =>
    simp only
    rw [if_neg ha, if_neg hb, decodeUtf8_ascii h]
  | cons c raw =>
    cases raw with
    | nil =>
      simp only
      rw [decodeUtf8_ascii h]
    | cons d raw =>
      simp only
      rw [if_neg ha, if_neg hb, decodeUtf8_ascii h]

/-- A string of characters that need no escape, after its opening quote. -/
theorem scanString_plain {s : PyStr} (h : ∀ c ∈ s, c ≠ 0x22 ∧ c ≠ 0x5C ∧ 0x1F < c) (rest : PyStr) :
    scanString (s ++ 0x22 :: rest) = .ok (s, rest) := by
  have hunits : scanUnits .plain (s ++ 0x22 :: rest) = some (s.map fun c => (c, false), rest) := by
    induction s with
    | nil => rfl
    | cons c s ih =>
      obtain ⟨h1, h2, h3⟩ := h c List.mem_cons_self
      rw [List.cons_append, scanUnits, if_neg h1, if_neg h2, if_neg (by omega), ih fun x hx => h x (List.mem_cons_of_mem c hx)]
      rfl
  have hjoin : ∀ s : PyStr, joinEscapes (s.map fun c => (c, false)) = s := by
    intro s
    induction s with
    | nil => rfl
    | cons c s ih =>
      rw [List.map_cons, joinEscapes, ih]
      rintro _ _ _ h
      cases h
  unfold scanString
  rw [hunits]
  simp only
  rw [hjoin]

/-- A JSON string of characters that need no escape. -/
def dumpsString (s : PyStr) : PyStr := 0x22 :: (s ++ [0x22])

/-- A string that is the next value. -/
theorem scanOnce_string {s : PyStr} (h : ∀ c ∈ s, c ≠ 0x22 ∧ c ≠ 0x5C ∧ 0x1F < c) (levels : ℕ) (rest : PyStr) :
    scanOnceWith parseFloat levels (dumpsString s ++ rest) = .ok (.str s, rest) := by
  unfold dumpsString scanOnceWith
  simp only [List.cons_append, List.append_assoc, List.nil_append, if_true]
  rw [scanString_plain h]
  rfl

theorem skipSpace_cons {c : ℕ} (h : ¬(c = 0x20 ∨ c = 0x09 ∨ c = 0x0A ∨ c = 0x0D)) (rest : PyStr) :
    skipSpace (c :: rest) = c :: rest := by
  rw [skipSpace, if_neg h]

theorem skipSpace_space (rest : PyStr) : skipSpace (0x20 :: rest) = skipSpace rest := by
  rw [skipSpace, if_pos (.inl rfl)]

/-- An entry whose key is a plain string, up to what follows its value. -/
theorem scanEntries_value {key : PyStr} (hkey : ∀ c ∈ key, c ≠ 0x22 ∧ c ≠ 0x5C ∧ 0x1F < c) {levels first c : ℕ}
    {text rest : PyStr} {value : DecimalJson} (hfirst : ¬(first = 0x20 ∨ first = 0x09 ∨ first = 0x0A ∨ first = 0x0D))
    (hvalue : scanOnceWith parseFloat levels (first :: text) = .ok (value, c :: rest))
    (hc : ¬(c = 0x20 ∨ c = 0x09 ∨ c = 0x0A ∨ c = 0x0D)) (fuel : ℕ) (entries : List (PyStr × DecimalJson)) :
    scanEntries (scanOnceWith parseFloat levels) (fuel + 1) entries
        (dumpsString key ++ 0x3A :: 0x20 :: first :: text) =
      if c = 0x7D then .ok (setEntry key value entries, rest)
      else if c = 0x2C then
        scanEntries (scanOnceWith parseFloat levels) fuel (setEntry key value entries)
          (skipSpace rest)
      else .error .jsonDecodeError := by
  have hquote : dumpsString key ++ 0x3A :: 0x20 :: first :: text =
      0x22 :: (key ++ 0x22 :: 0x3A :: 0x20 :: first :: text) := by
    simp [dumpsString]
  rw [hquote, scanEntries]
  simp only [ne_eq, not_true_eq_false, if_false]
  rw [scanString_plain hkey]
  simp only [Except.ok_bind]
  rw [skipSpace_cons (by decide)]
  simp only [not_true_eq_false, if_false]
  rw [skipSpace_space, skipSpace_cons hfirst, hvalue]
  simp only [Except.ok_bind]
  rw [skipSpace_cons hc]
  rfl

/-- An entry whose key and value are strings, up to what follows the value. -/
theorem scanEntries_string {key value : PyStr} (hkey : ∀ c ∈ key, c ≠ 0x22 ∧ c ≠ 0x5C ∧ 0x1F < c)
    (hvalue : ∀ c ∈ value, c ≠ 0x22 ∧ c ≠ 0x5C ∧ 0x1F < c) (levels fuel : ℕ) (entries : List (PyStr × DecimalJson)) (c : ℕ)
    (hc : ¬(c = 0x20 ∨ c = 0x09 ∨ c = 0x0A ∨ c = 0x0D)) (rest : PyStr) :
    scanEntries (scanOnceWith parseFloat levels) (fuel + 1) entries
        (dumpsString key ++ 0x3A :: 0x20 :: (dumpsString value ++ c :: rest)) =
      if c = 0x7D then .ok (setEntry key (.str value) entries, rest)
      else if c = 0x2C then
        scanEntries (scanOnceWith parseFloat levels) fuel (setEntry key (.str value) entries)
          (skipSpace rest)
      else .error .jsonDecodeError := by
  have hscan : scanOnceWith parseFloat levels (dumpsString value ++ c :: rest) = .ok (.str value, c :: rest) :=
    scanOnce_string hvalue levels (c :: rest)
  exact scanEntries_value hkey (by decide) hscan hc fuel entries

/-- An object that is not empty is scanned entry by entry. -/
theorem scanOnce_object {levels : ℕ} {text rest : PyStr} {entries : List (PyStr × DecimalJson)}
    (h : scanEntries (scanOnceWith parseFloat levels) (text.length + 2) [] (0x22 :: text) = .ok (entries, rest)) :
    scanOnceWith parseFloat (levels + 1) (0x7B :: 0x22 :: text) = .ok (.obj entries, rest) := by
  unfold scanOnceWith
  simp only [show ¬(0x7B = 0x22) by decide, show ¬(0x7B = 0x5B) by decide, if_false, or_true, if_true]
  unfold scanObject
  rw [skipSpace_cons (by decide)]
  simp only [show ¬(0x22 = 0x7D) by decide, if_false, List.length_cons]
  rw [h]
  rfl

/-- A text in ASCII that is one value, in bytes. -/
theorem loads_ascii {levels first second : ℕ} {text : PyStr} {value : DecimalJson}
    (hfirst : ¬(first = 0x20 ∨ first = 0x09 ∨ first = 0x0A ∨ first = 0x0D)) (hzero : first ≠ 0) (hzero' : second ≠ 0)
    (hascii : ∀ c ∈ first :: second :: text, c < 0x80)
    (hscan : scanOnceWith parseFloat levels (first :: second :: text) = .ok (value, [])) :
    loadsWith parseFloat levels ((first :: second :: text).map UInt8.ofNat) = .ok value := by
  have hbytes : ((first :: second :: text).map UInt8.ofNat).map UInt8.toNat = first :: second :: text := by
    rw [List.map_map]
    refine (List.map_congr_left fun c hc => ?_).trans (List.map_id _)
    have := hascii c hc
    rw [Function.comp_apply, UInt8.toNat_ofNat', Nat.mod_eq_of_lt (by omega)]
    rfl
  unfold loadsWith
  rw [hbytes, decodeBytes_ascii hzero hzero' hascii]
  simp only
  rw [skipSpace_cons hfirst, hscan]
  rfl

/-! ## Strings read from Unicode text -/

/-- A code point read from Unicode text: only an escape writes half of a surrogate pair. -/
def UnitRead (u : ℕ × Bool) : Prop := u.1 < 0x110000 ∧ (u.2 = false → isSurrogate u.1 = false)

/-- The value of the digits read of an escape is in range. -/
def StringState.InRange : StringState → Prop
  | .unicode digits value => digits ≤ 3 ∧ value < 16 ^ digits
  | _ => True

theorem hexDigit_lt {c h : ℕ} (hc : hexDigit c = some h) : h < 16 := by
  unfold hexDigit at hc
  split at hc
  · cases hc
    omega
  · split at hc
    · cases hc
      omega
    · split at hc
      · cases hc
        omega
      · cases hc

theorem unitRead_escaped {c e : ℕ} (h : escaped c = some e) : UnitRead (e, false) := by
  have table : ∀ entry ∈ ([('"', 0x22), ('\\', 0x5C), ('/', 0x2F), ('b', 0x08), ('f', 0x0C), ('n', 0x0A), ('r', 0x0D), ('t', 0x09)] :
      List (Char × ℕ)), entry.2 < 0x110000 ∧ isSurrogate entry.2 = false := by decide
  obtain ⟨entry, hfind, rfl⟩ := Option.map_eq_some_iff.mp h
  obtain ⟨hlt, hscalar⟩ := table entry (List.mem_of_find?_eq_some hfind)
  exact ⟨hlt, fun _ => hscalar⟩

theorem scanUnits_read {text : PyStr} : ∀ {state : StringState} {units : List (ℕ × Bool)} {rest : PyStr},
    (∀ c ∈ text, c < 0x110000 ∧ isSurrogate c = false) → state.InRange → scanUnits state text = some (units, rest) →
      ∀ u ∈ units, UnitRead u := by
  induction text with
  | nil => intro state units rest _ _ h; cases state <;> cases h
  | cons c text ih =>
    intro state units rest htext hstate h
    obtain ⟨hc, htext⟩ := List.forall_mem_cons.mp htext
    have hplain : StringState.InRange .plain := trivial
    have later : ∀ {unit : ℕ × Bool}, UnitRead unit →
        ((scanUnits .plain text).map fun (us, r) => (unit :: us, r)) = some (units, rest) → ∀ u ∈ units, UnitRead u := by
      intro unit hunit h
      obtain ⟨⟨us, r⟩, hs, h⟩ := Option.map_eq_some_iff.mp h
      cases h
      exact List.forall_mem_cons.mpr ⟨hunit, ih htext hplain hs⟩
    cases state with
    | plain =>
      rw [scanUnits] at h
      split at h
      · cases h
        simp
      · split at h
        · have hbackslash : StringState.InRange .backslash := trivial
          exact ih htext hbackslash h
        · split at h
          · cases h
          · exact later ⟨hc.1, fun _ => hc.2⟩ h
    | backslash =>
      rw [scanUnits] at h
      split at h
      · have hstart : StringState.InRange (.unicode 0 0) := ⟨Nat.zero_le 3, Nat.zero_lt_one⟩
        exact ih htext hstart h
      · split at h
        · cases h
        · exact later (unitRead_escaped (by assumption)) h
    | unicode digits value =>
      obtain ⟨hdigits, hvalue⟩ := hstate
      rw [scanUnits] at h
      split at h
      · cases h
      · rename_i d hd
        have hd := hexDigit_lt hd
        split at h
        · rename_i hthree
          rw [hthree] at hvalue
          refine later ⟨?_, fun hescape => ?_⟩ h
          · change value * 16 + d < 0x110000
            omega
          · cases hescape
        · have hnext : StringState.InRange (.unicode (digits + 1) (value * 16 + d)) := by
            refine ⟨by omega, ?_⟩
            rw [Nat.pow_succ]
            omega
          exact ih htext hnext h

/-- What two halves are joined to is no half of a pair itself. -/
theorem joinSurrogates_bounds {high low : ℕ} (h : (isHighSurrogate high && isLowSurrogate low) = true) :
    0x10000 ≤ joinSurrogates high low ∧ joinSurrogates high low < 0x110000 := by
  simp only [isHighSurrogate, isLowSurrogate, Bool.and_eq_true, decide_eq_true_eq] at h
  unfold joinSurrogates
  omega

/-- A low half that a string starts with was the first to be read: what two halves are joined to is none. -/
theorem joinEscapes_head {units : List (ℕ × Bool)} {n : ℕ} (h : (joinEscapes units).head? = some n) (hlow : isLowSurrogate n = true) :
    ∃ escape rest, units = (n, escape) :: rest := by
  induction units using joinEscapes.induct with
  | case1 high low units hpair ih =>
    have hbounds := joinSurrogates_bounds hpair
    rw [joinEscapes, if_pos hpair] at h
    generalize joinSurrogates high low = joined at h hbounds
    cases h
    simp only [isLowSurrogate, decide_eq_true_eq] at hlow
    omega
  | case2 high low units hpair ih =>
    rw [joinEscapes, if_neg hpair] at h
    cases h
    exact ⟨_, _, rfl⟩
  | case3 c escape units hne ih =>
    rw [joinEscapes] at h
    · cases h
      exact ⟨_, _, rfl⟩
    · exact hne
  | case4 => cases h

/-- What is read of escapes that are joined has no surrogate pair left. -/
theorem joinEscapes_joined {units : List (ℕ × Bool)} (h : ∀ u ∈ units, UnitRead u) : (joinEscapes units).Joined := by
  have cons : ∀ {c : ℕ} {s : PyStr}, c < 0x110000 → s.Joined →
      (∀ n, s.head? = some n → ¬(isHighSurrogate c = true ∧ isLowSurrogate n = true)) → PyStr.Joined (c :: s) := by
    intro c s hc hs hhead
    refine ⟨List.forall_mem_cons.mpr ⟨hc, hs.bounded⟩, ?_⟩
    rw [List.isChain_cons]
    exact ⟨hhead, hs.unpaired⟩
  induction units using joinEscapes.induct with
  | case1 high low units hpair ih =>
    obtain ⟨hhigh, hrest⟩ := List.forall_mem_cons.mp h
    obtain ⟨hlow, hrest⟩ := List.forall_mem_cons.mp hrest
    have hbounds := joinSurrogates_bounds hpair
    rw [joinEscapes, if_pos hpair]
    generalize joinSurrogates high low = joined at hbounds
    refine cons hbounds.2 (ih hrest) fun n _ hn => ?_
    simp only [isHighSurrogate, decide_eq_true_eq] at hn
    omega
  | case2 high low units hpair ih =>
    obtain ⟨hhigh, hrest⟩ := List.forall_mem_cons.mp h
    rw [joinEscapes, if_neg hpair]
    refine cons hhigh.1 (ih hrest) fun n hn hboth => ?_
    obtain ⟨escape, rest, heq⟩ := joinEscapes_head hn hboth.2
    cases heq
    rw [Bool.and_eq_true] at hpair
    exact hpair hboth
  | case3 c escape units hne ih =>
    obtain ⟨hc, hrest⟩ := List.forall_mem_cons.mp h
    rw [joinEscapes]
    · refine cons hc.1 (ih hrest) fun n hn hboth => ?_
      obtain ⟨escape', rest, heq⟩ := joinEscapes_head hn hboth.2
      subst heq
      cases escape with
      | false =>
        have hscalar := hc.2 rfl
        rw [isSurrogate, hboth.1, Bool.true_or] at hscalar
        cases hscalar
      | true =>
        cases escape' with
        | false =>
          have hscalar := (hrest (n, false) List.mem_cons_self).2 rfl
          rw [isSurrogate, hboth.2, Bool.or_true] at hscalar
          cases hscalar
        | true => exact hne n rest rfl rfl
    · exact hne
  | case4 => exact ⟨by simp [joinEscapes], by simp [joinEscapes]⟩

/-- A string read from Unicode text is joined, as the strings of `Json` are. -/
theorem scanString_joined {text s rest : PyStr} (htext : ∀ c ∈ text, c < 0x110000 ∧ isSurrogate c = false)
    (h : scanString text = .ok (s, rest)) : s.Joined := by
  unfold scanString at h
  split at h
  · cases h
  · rename_i units r hu
    cases h
    have hplain : StringState.InRange .plain := trivial
    exact joinEscapes_joined (scanUnits_read htext hplain hu)

end JsonDecode
