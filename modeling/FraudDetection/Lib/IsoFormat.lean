import FraudDetection.Lib.Calendar
import FraudDetection.Lib.FixedDigits
import FraudDetection.Lib.JsonDecode

/-!
# ISO 8601 texts of times

`datetime.isoformat` and `datetime.fromisoformat`, as CPython 3.14 has them. The reader takes more than the writer writes: dates
without hyphens and dates by week, times without colons and without seconds, and any character between date and time. It works on
the bytes of a text, which a zero byte ends.

A time that was written is read back as itself, with its offset (`fromisoformat_isoformat`).
-/

/-- A Python `datetime`: its wall-clock time in microseconds since the epoch, and its offset from UTC in microseconds, which a naive
one does not have. -/
structure Datetime where
  wall : ℤ
  offset : Option ℤ
  deriving DecidableEq, Repr

namespace IsoFormat

open Calendar

/-! ## Digits -/

/-- The character of a decimal digit, and the digit of a character. -/
def decimalChar (n : ℕ) : ℕ := n + 0x30
def decimalDigit (c : ℕ) : Option ℕ := if JsonDecode.isDigit c then some (c - 0x30) else none

/-- A number with leading zeros, and as many digits at the start of a text. -/
def writeDecimal : ℕ → ℕ → List ℕ := FixedDigits.write 10 decimalChar
def readDecimal : ℕ → List ℕ → Option (ℕ × List ℕ) := FixedDigits.read 10 decimalDigit

/-- What follows a character that a text starts with. -/
def expect (c : ℕ) : List ℕ → Option (List ℕ)
  | [] => none
  | d :: rest => if d = c then some rest else none

/-- The byte at a place of a text. A zero byte ends it. -/
def byteAt (text : List ℕ) (place : ℕ) : ℕ := text.getD place 0

/-! ## Writing -/

/-- The number of the day the epoch is. -/
def epochOrdinal : ℕ := 719163

/-- The microseconds of a day. -/
def dayMicros : ℕ := 86400000000

/-- `.ffffff`, which is left out when it is zero. -/
def writeFraction (micro : ℕ) : List ℕ := if micro = 0 then [] else 0x2E :: writeDecimal 6 micro

/-- `HH:MM:SS`, and a fraction. -/
def writeTime (micros : ℕ) : List ℕ :=
  writeDecimal 2 (micros / 3600000000) ++ 0x3A :: (writeDecimal 2 (micros / 60000000 % 60) ++ 0x3A ::
    (writeDecimal 2 (micros / 1000000 % 60) ++ writeFraction (micros % 1000000)))

/-- A time without its seconds. -/
def writeMinutes (micros : ℕ) : List ℕ :=
  writeDecimal 2 (micros / 3600000000) ++ 0x3A :: writeDecimal 2 (micros / 60000000 % 60)

/-- `+HH:MM`, with seconds only when there are any. -/
def writeOffset : Option ℤ → List ℕ
  | none => []
  | some offset =>
    (if offset < 0 then 0x2D else 0x2B) ::
      if offset.natAbs % 60000000 = 0 then writeMinutes offset.natAbs else writeTime offset.natAbs

/-- `YYYY-MM-DD`. -/
def writeDate (date : Date) : List ℕ :=
  writeDecimal 4 date.year ++ 0x2D :: (writeDecimal 2 date.month ++ 0x2D :: writeDecimal 2 date.day)

/-- `value.isoformat()`. -/
def isoformat (value : Datetime) : PyStr :=
  writeDate (ofOrdinal (value.wall / dayMicros + epochOrdinal).toNat) ++
    0x54 :: (writeTime (value.wall % dayMicros).toNat ++ writeOffset value.offset)

/-! ## Reading a date -/

/-- The ordinal of the Monday that the first ISO week of a year starts with. -/
def isoWeek1Monday (year : ℕ) : ℕ :=
  let first := toOrdinal ⟨year, 1, 1⟩
  let weekday := (first + 6) % 7
  if 3 < weekday then first - weekday + 7 else first - weekday

/-- A year of 53 ISO weeks: it begins on a Thursday, or is a leap year that begins on a Wednesday. -/
def hasWeek53 (year : ℕ) : Bool :=
  let weekday := (toOrdinal ⟨year, 1, 1⟩ + 6) % 7
  weekday == 3 || (weekday == 2 && isLeap year)

/-- `iso_to_ymd`. -/
def isoToYmd (year week day : ℕ) : Option Date :=
  if (1 ≤ year ∧ year ≤ 9999) ∧ (1 ≤ week ∧ (week < 53 ∨ week = 53 ∧ hasWeek53 year)) ∧ (1 ≤ day ∧ day ≤ 7) then
    some (ofOrdinal (isoWeek1Monday year + (week - 1) * 7 + (day - 1)))
  else none

/-- `_find_isoformat_datetime_separator`: where a date ends. It is `none` where no date can be read. -/
def separatorLocation (text : List ℕ) : Option ℕ :=
  if text.length = 7 then some 7
  else if byteAt text 4 = 0x2D then
    if byteAt text 5 = 0x57 then
      if text.length < 8 then none
      else if 8 < text.length ∧ byteAt text 8 = 0x2D then
        if text.length = 9 then none
        -- either a hyphen or a digit separates here; a hyphen is more likely
        else if 10 < text.length ∧ JsonDecode.isDigit (byteAt text 10) then some 8
        else some 10
      else some 8
    else some 10
  else if byteAt text 4 = 0x57 then
    let digits := 7 + ((text.drop 7).takeWhile JsonDecode.isDigit).length
    if digits < 9 then some digits
    else if digits % 2 = 0 then some 7
    else some 8
  else some 8

/-- `parse_isoformat_date`, of a date that ends at `location`. -/
def parseDate (text : List ℕ) (location : ℕ) : Option Date := do
  let (year, afterYear) ← readDecimal 4 text
  let hyphens := afterYear.head? = some 0x2D
  let afterYear := if hyphens then afterYear.tail else afterYear
  if afterYear.head? = some 0x57 then
    let (week, afterWeek) ← readDecimal 2 afterYear.tail
    if text.length - afterWeek.length < location then
      let afterWeek ← if hyphens then expect 0x2D afterWeek else some afterWeek
      let (day, _) ← readDecimal 1 afterWeek
      isoToYmd year week day
    else isoToYmd year week 1
  else
    let (month, afterMonth) ← readDecimal 2 afterYear
    let afterMonth ← if hyphens then expect 0x2D afterMonth else some afterMonth
    let (day, _) ← readDecimal 2 afterMonth
    return ⟨year, month, day⟩

/-! ## Reading a time -/

/-- Up to six digits of a fraction, as microseconds; more of them are dropped. -/
def parseFraction (text : List ℕ) : Option (ℕ × List ℕ) :=
  let digits := min text.length 6
  (readDecimal digits text).map fun (n, rest) => (n * 10 ^ (6 - digits), rest.dropWhile JsonDecode.isDigit)

/-- `parse_hh_mm_ss_ff`: at most `count` fields of two digits, with or without colons, and a fraction after the last. What it does
not read is returned, and only a zero byte ends a text there. `colons` is chosen after the first field. -/
def parseFields : Option Bool → ℕ → List ℕ → Option (List ℕ × ℕ × List ℕ)
  | _, 0, text => (parseFraction text).map fun (micro, rest) => ([], micro, rest)
  | colons, count + 1, text => do
    let (field, rest) ← readDecimal 2 text
    let colons := colons.getD (rest.head? == some 0x3A)
    match rest with
    | c :: d :: after =>
      if colons ∧ c = 0x3A then
        if count = 0 then none
        else (parseFields (some colons) count (d :: after)).map fun (fields, tail) => (field :: fields, tail)
      else if c = 0x2E ∨ c = 0x2C then
        if count = 0 then (parseFields (some colons) count (d :: after)).map fun (fields, tail) => (field :: fields, tail)
        else none
      else if colons then none
      else (parseFields (some colons) count (c :: d :: after)).map fun (fields, tail) => (field :: fields, tail)
    | rest => some ([field], 0, rest)

/-- A character that an offset starts with. -/
def isZoneMark (c : ℕ) : Bool := c == 0x2B || c == 0x2D || c == 0x5A

/-- An offset of some fields: `none` if one of them is out of range. One that is shorter than a second is none at all. -/
def offsetOf (negative : Bool) (fields : List ℕ) (micro : ℕ) : Option ℤ :=
  let hour := fields.getD 0 0
  let minute := fields.getD 1 0
  let second := fields.getD 2 0
  let seconds := (hour * 60 + minute) * 60 + second
  let micros : ℤ := if seconds = 0 then 0 else (seconds * 1000000 + micro : ℕ)
  if hour < 24 ∧ minute < 60 ∧ second < 60 then some (if negative then -micros else micros) else none

/-- `parse_isoformat_time`: fields, microseconds, and an offset, if there is one. -/
def parseTime (text : List ℕ) : Option (List ℕ × ℕ × Option ℤ) := do
  let (fields, micro, rest) ← parseFields none 3 (text.takeWhile fun c => !isZoneMark c)
  match text.dropWhile fun c => !isZoneMark c with
  | [] => if byteAt rest 0 = 0 then some (fields, micro, none) else none
  | mark :: zone =>
    if mark = 0x5A then if byteAt zone 0 = 0 then some (fields, micro, some 0) else none
    else do
      let (zoneFields, zoneMicro, rest) ← parseFields none 3 zone
      let offset ← offsetOf (mark == 0x2D) zoneFields zoneMicro
      if byteAt rest 0 = 0 then some (fields, micro, some offset) else none

/-! ## Reading a datetime -/

/-- The bytes of a text in UTF-8. A surrogate has none. -/
def encodeUtf8 : PyStr → Option (List ℕ)
  | [] => some []
  | c :: rest =>
    if c < 0x80 then (encodeUtf8 rest).map (c :: ·)
    else if c < 0x800 then (encodeUtf8 rest).map ([0xC0 + c / 0x40, 0x80 + c % 0x40] ++ ·)
    else if 0xD800 ≤ c ∧ c < 0xE000 then none
    else if c < 0x10000 then
      (encodeUtf8 rest).map ([0xE0 + c / 0x1000, 0x80 + c / 0x40 % 0x40, 0x80 + c % 0x40] ++ ·)
    else
      (encodeUtf8 rest).map
        ([0xF0 + c / 0x40000, 0x80 + c / 0x1000 % 0x40, 0x80 + c / 0x40 % 0x40, 0x80 + c % 0x40] ++ ·)

/-- `_sanitize_isoformat_str`: a surrogate is let through where a separator may be. -/
def sanitize (text : PyStr) : PyStr :=
  match [7, 8, 10].find? fun place => decide (0xD800 ≤ text.getD place 0 ∧ text.getD place 0 < 0xE000) with
  | some place => text.set place 0x54
  | none => text

/-- How many bytes a character has that starts with a byte. -/
def charWidth (byte : ℕ) : ℕ :=
  if byte < 0x80 then 1 else if 0xE0 ≤ byte ∧ byte < 0xF0 then 3 else if 0xF0 ≤ byte then 4 else 2

/-- The day after a day of a month. -/
def nextDay (date : Date) : Date :=
  if date.day + 1 ≤ daysInMonth (isLeap date.year) date.month then ⟨date.year, date.month, date.day + 1⟩
  else if date.month + 1 ≤ 12 then ⟨date.year, date.month + 1, 1⟩
  else ⟨date.year + 1, 1, 1⟩

/-- `datetime(…)`: `none` if a field is out of range. -/
def build (date : Date) (hour minute second micro : ℕ) (offset : Option ℤ) : Option Datetime :=
  if date.IsValid ∧ hour < 24 ∧ minute < 60 ∧ second < 60 then
    some ⟨((toOrdinal date : ℤ) - epochOrdinal) * dayMicros + (((hour * 60 + minute) * 60 + second) * 1000000 + micro : ℕ), offset⟩
  else none

/-- A datetime of its fields. Midnight may be written as the end of the day before. -/
def assemble (date : Date) (fields : List ℕ) (micro : ℕ) (offset : Option ℤ) : Option Datetime :=
  let hour := fields.getD 0 0
  let minute := fields.getD 1 0
  let second := fields.getD 2 0
  if hour = 24 ∧ date.month ≤ 12 ∧ date.day ≤ daysInMonth (isLeap date.year) date.month then
    if minute = 0 ∧ second = 0 ∧ micro = 0 then build (nextDay date) 0 0 0 0 offset else none
  else build date hour minute second micro offset

/-- `datetime.fromisoformat(text)`: `none` is a `ValueError`. -/
def fromisoformat (text : PyStr) : Option Datetime := do
  let bytes ← encodeUtf8 (sanitize text)
  let location ← separatorLocation bytes
  let date ← parseDate bytes location
  if bytes.length ≤ location then assemble date [] 0 none
  else do
    let (fields, micro, offset) ← parseTime (bytes.drop (location + charWidth (byteAt bytes location)))
    assemble date fields micro offset

/-! ## A time that was written is read back -/

theorem decimalDigit_char : ∀ d < 10, decimalDigit (decimalChar d) = some d := by decide

theorem readDecimal_write {k n : ℕ} (h : n < 10 ^ k) (rest : List ℕ) : readDecimal k (writeDecimal k n ++ rest) = some (n, rest) :=
  FixedDigits.read_write (by decide) decimalDigit_char h rest

theorem expect_cons (c : ℕ) (rest : List ℕ) : expect c (c :: rest) = some rest := if_pos rfl

theorem writeDecimal_length (k n : ℕ) : (writeDecimal k n).length = k := FixedDigits.write_length k n

/-! ### Characters -/

/-- What `isoformat` writes with: digits, and `+`, `-`, `.`, `:` and `T`. -/
def Written (c : ℕ) : Prop := JsonDecode.isDigit c = true ∨ c ∈ [0x2B, 0x2D, 0x2E, 0x3A, 0x54]

theorem Written.lt {c : ℕ} (h : Written c) : 0x2A < c ∧ c < 0x55 := by
  rcases h with h | h
  · have := of_decide_eq_true h
    omega
  · revert c
    decide

theorem digit_of_mem {k n c : ℕ} (h : c ∈ writeDecimal k n) : JsonDecode.isDigit c = true := by
  obtain ⟨d, hd, rfl⟩ := FixedDigits.mem_write (by decide) h
  unfold decimalChar
  exact decide_eq_true (by omega)

/-- A time is written with digits, colons and a point. -/
theorem mem_writeTime {micros c : ℕ} (h : c ∈ writeTime micros) : JsonDecode.isDigit c = true ∨ c = 0x3A ∨ c = 0x2E := by
  unfold writeTime writeFraction at h
  simp only [List.mem_append, List.mem_cons] at h
  rcases h with h | rfl | h | rfl | h | h
  · exact .inl (digit_of_mem h)
  · exact .inr (.inl rfl)
  · exact .inl (digit_of_mem h)
  · exact .inr (.inl rfl)
  · exact .inl (digit_of_mem h)
  · split at h
    · cases h
    · rcases List.mem_cons.mp h with rfl | h
      · exact .inr (.inr rfl)
      · exact .inl (digit_of_mem h)

theorem mem_writeMinutes {micros c : ℕ} (h : c ∈ writeMinutes micros) : JsonDecode.isDigit c = true ∨ c = 0x3A := by
  unfold writeMinutes at h
  simp only [List.mem_append, List.mem_cons] at h
  rcases h with h | rfl | h
  · exact .inl (digit_of_mem h)
  · exact .inr rfl
  · exact .inl (digit_of_mem h)

theorem mem_isoformat {value : Datetime} {c : ℕ} (h : c ∈ isoformat value) : Written c := by
  have time : ∀ micros, c ∈ writeTime micros → Written c := by
    intro micros h
    rcases mem_writeTime h with h | rfl | rfl
    · exact .inl h
    · exact .inr (by decide)
    · exact .inr (by decide)
  unfold isoformat writeDate at h
  simp only [List.mem_append, List.mem_cons] at h
  rcases h with (h | rfl | h | rfl | h) | rfl | h | h
  · exact .inl (digit_of_mem h)
  · exact .inr (by decide)
  · exact .inl (digit_of_mem h)
  · exact .inr (by decide)
  · exact .inl (digit_of_mem h)
  · exact .inr (by decide)
  · exact time _ h
  · cases ho : value.offset with
    | none =>
      rw [ho] at h
      cases h
    | some offset =>
      rw [ho, writeOffset, List.mem_cons] at h
      rcases h with rfl | h
      · split
        · exact .inr (by decide)
        · exact .inr (by decide)
      · split at h
        · rcases mem_writeMinutes h with h | rfl
          · exact .inl h
          · exact .inr (by decide)
        · exact time _ h

theorem writeTime_length (micros : ℕ) : (writeTime micros).length ≤ 15 := by
  unfold writeTime writeFraction
  split
  · simp only [List.length_append, List.length_cons, List.length_nil, writeDecimal_length]
    omega
  · simp only [List.length_append, List.length_cons, writeDecimal_length]
    omega

theorem isoformat_length (value : Datetime) : (isoformat value).length ≤ 42 := by
  have htime := writeTime_length (value.wall % dayMicros).toNat
  have hoffset : (writeOffset value.offset).length ≤ 16 := by
    cases value.offset with
    | none => exact Nat.zero_le _
    | some offset =>
      have hzone := writeTime_length offset.natAbs
      rw [writeOffset, List.length_cons]
      split
      · simp only [writeMinutes, List.length_append, List.length_cons, writeDecimal_length]
        omega
      · omega
  unfold isoformat writeDate
  simp only [List.length_append, List.length_cons, writeDecimal_length]
  omega

/-! ### Dates -/

theorem writeDate_eq (date : Date) : writeDate date =
    [decimalChar (date.year / 10 / 10 / 10 % 10), decimalChar (date.year / 10 / 10 % 10), decimalChar (date.year / 10 % 10),
      decimalChar (date.year % 10), 0x2D, decimalChar (date.month / 10 % 10), decimalChar (date.month % 10), 0x2D,
      decimalChar (date.day / 10 % 10), decimalChar (date.day % 10)] := rfl

theorem separatorLocation_writeDate (date : Date) (rest : List ℕ) : separatorLocation (writeDate date ++ 0x54 :: rest) = some 10 := by
  have hlength : (writeDate date ++ 0x54 :: rest).length ≠ 7 := by
    rw [writeDate_eq]
    simp
  have hhyphen : byteAt (writeDate date ++ 0x54 :: rest) 4 = 0x2D := rfl
  have hweek : byteAt (writeDate date ++ 0x54 :: rest) 5 ≠ 0x57 := by
    have hmonth : byteAt (writeDate date ++ 0x54 :: rest) 5 = decimalChar (date.month / 10 % 10) := rfl
    rw [hmonth, decimalChar]
    omega
  unfold separatorLocation
  rw [if_neg hlength, if_pos hhyphen, if_neg hweek]

theorem parseDate_writeDate {date : Date} (hyear : date.year < 10 ^ 4) (hmonth : date.month < 10 ^ 2) (hday : date.day < 10 ^ 2)
    (rest : List ℕ) (location : ℕ) : parseDate (writeDate date ++ rest) location = some date := by
  unfold parseDate writeDate
  simp only [List.append_assoc, List.cons_append]
  refine Option.bind_eq_some_iff.mpr ⟨_, readDecimal_write hyear _, ?_⟩
  simp only [List.head?_cons, if_true, List.tail_cons]
  have hdigit : (writeDecimal 2 date.month ++ 0x2D :: (writeDecimal 2 date.day ++ rest)).head? ≠ some 0x57 := by
    have hhead : (writeDecimal 2 date.month ++ 0x2D :: (writeDecimal 2 date.day ++ rest)).head? =
      some (decimalChar (date.month / 10 % 10)) := rfl
    rw [hhead]
    unfold decimalChar
    simp only [ne_eq, Option.some.injEq]
    omega
  rw [if_neg hdigit]
  refine Option.bind_eq_some_iff.mpr ⟨_, readDecimal_write hmonth _, ?_⟩
  refine Option.bind_eq_some_iff.mpr ⟨_, expect_cons _ _, ?_⟩
  exact Option.bind_eq_some_iff.mpr ⟨_, readDecimal_write hday _, rfl⟩

/-! ### Times -/

theorem parseFields_last {n : ℕ} (h : n < 10 ^ 2) (colons : Option Bool) (count : ℕ) :
    parseFields colons (count + 1) (writeDecimal 2 n) = some ([n], 0, []) := by
  have hread := readDecimal_write h []
  rw [List.append_nil] at hread
  rw [parseFields, hread]
  rfl

theorem parseFields_colon {n : ℕ} (h : n < 10 ^ 2) {colons : Option Bool} (hcolons : colons.getD true = true) (count c : ℕ)
    (rest : List ℕ) :
    parseFields colons (count + 2) (writeDecimal 2 n ++ 0x3A :: c :: rest) =
      (parseFields (some true) (count + 1) (c :: rest)).map fun (fields, tail) => (n :: fields, tail) := by
  have hchosen : colons.getD ((0x3A :: c :: rest).head? == some 0x3A) = true := by
    rw [List.head?_cons, BEq.rfl]
    exact hcolons
  rw [parseFields, readDecimal_write h]
  simp only [Option.bind_eq_bind, Option.bind_some, hchosen, and_self, if_true]
  rw [if_neg (Nat.succ_ne_zero count)]

theorem parseFields_fraction {n micro : ℕ} (h : n < 10 ^ 2) (hmicro : micro < 10 ^ 6) :
    parseFields (some true) 1 (writeDecimal 2 n ++ 0x2E :: writeDecimal 6 micro) = some ([n], micro, []) := by
  have hread := readDecimal_write hmicro []
  rw [List.append_nil] at hread
  have hfraction : parseFraction (writeDecimal 6 micro) = some (micro, []) := by
    unfold parseFraction
    rw [writeDecimal_length]
    simp only [Nat.min_self, hread]
    simp
  obtain ⟨c, rest, hcons⟩ : ∃ c rest, writeDecimal 6 micro = c :: rest := ⟨_, _, rfl⟩
  rw [parseFields, readDecimal_write h, hcons]
  simp only [Option.bind_eq_bind, Option.bind_some, Option.getD_some]
  rw [if_neg (by decide), if_pos (by decide), if_pos trivial, parseFields, ← hcons, hfraction]
  rfl

/-- A text of two digits and more begins with two characters. -/
theorem writeDecimal_cons (n : ℕ) (rest : List ℕ) :
    writeDecimal 2 n ++ rest = decimalChar (n / 10 % 10) :: decimalChar (n % 10) :: rest := rfl

theorem parseFields_writeTime {micros : ℕ} (h : micros < dayMicros) :
    parseFields none 3 (writeTime micros) =
      some ([micros / 3600000000, micros / 60000000 % 60, micros / 1000000 % 60], micros % 1000000, []) := by
  unfold dayMicros at h
  unfold writeTime
  rw [writeDecimal_cons (micros / 60000000 % 60), parseFields_colon (by omega) rfl, ← writeDecimal_cons,
    writeDecimal_cons (micros / 1000000 % 60), parseFields_colon (by omega) rfl, ← writeDecimal_cons]
  unfold writeFraction
  split
  · rename_i h0
    rw [List.append_nil, parseFields_last (by omega), h0]
    rfl
  · rw [parseFields_fraction (by omega) (by omega)]
    rfl

theorem parseFields_writeMinutes {micros : ℕ} (h : micros < dayMicros) :
    parseFields none 3 (writeMinutes micros) = some ([micros / 3600000000, micros / 60000000 % 60], 0, []) := by
  have hcons := writeDecimal_cons (micros / 60000000 % 60) []
  rw [List.append_nil] at hcons
  unfold dayMicros at h
  unfold writeMinutes
  rw [hcons, parseFields_colon (by omega) rfl, ← hcons, parseFields_last (by omega)]
  rfl

/-- An offset that can be read back: shorter than a day, and none at all or at least a second. -/
def OffsetIsValid (offset : ℤ) : Prop := offset.natAbs < dayMicros ∧ (offset = 0 ∨ 1000000 ≤ offset.natAbs)

theorem offsetOf_fields {micros : ℕ} (h : micros < dayMicros) (hsecond : micros = 0 ∨ 1000000 ≤ micros) (negative : Bool) :
    offsetOf negative [micros / 3600000000, micros / 60000000 % 60, micros / 1000000 % 60] (micros % 1000000) =
      some (if negative then -(micros : ℤ) else micros) := by
  unfold dayMicros at h
  have hmicros : (if (micros / 3600000000 * 60 + micros / 60000000 % 60) * 60 + micros / 1000000 % 60 = 0 then 0
      else ((((micros / 3600000000 * 60 + micros / 60000000 % 60) * 60 + micros / 1000000 % 60) * 1000000 + micros % 1000000 : ℕ) :
        ℤ)) = micros := by
    split
    · omega
    · have : ((micros / 3600000000 * 60 + micros / 60000000 % 60) * 60 + micros / 1000000 % 60) * 1000000 + micros % 1000000 =
          micros := by omega
      rw [this]
  unfold offsetOf
  simp only [List.getD_cons_zero, List.getD_cons_succ, hmicros]
  rw [if_pos (by omega)]

/-- The fields of an offset, and what they come to. -/
theorem zone_of_offset {offset : ℤ} (h : OffsetIsValid offset) (negative : Bool) :
    ∃ fields micro, parseFields none 3
        (if offset.natAbs % 60000000 = 0 then writeMinutes offset.natAbs else writeTime offset.natAbs) = some (fields, micro, []) ∧
      offsetOf negative fields micro = some (if negative then -(offset.natAbs : ℤ) else offset.natAbs) := by
  obtain ⟨hlt, hsecond⟩ := h
  have hsecond' : offset.natAbs = 0 ∨ 1000000 ≤ offset.natAbs := by omega
  have hfields := offsetOf_fields hlt hsecond' negative
  split
  · rename_i hwhole
    refine ⟨_, _, parseFields_writeMinutes hlt, ?_⟩
    rw [← hfields]
    -- a field that is missing is zero
    have hzero : offset.natAbs / 1000000 % 60 = 0 ∧ offset.natAbs % 1000000 = 0 := by omega
    rw [hzero.1, hzero.2]
    rfl
  · exact ⟨_, _, parseFields_writeTime hlt, hfields⟩

theorem not_zoneMark_of_mem {micros c : ℕ} (h : c ∈ writeTime micros) : (!isZoneMark c) = true := by
  unfold isZoneMark
  rcases mem_writeTime h with h | rfl | rfl
  · have := of_decide_eq_true h
    simp only [Bool.not_eq_true', Bool.or_eq_false_iff, beq_eq_false_iff_ne]
    omega
  · rfl
  · rfl

theorem parseTime_write {micros : ℕ} (h : micros < dayMicros) {offset : Option ℤ} (hoffset : ∀ o ∈ offset, OffsetIsValid o) :
    parseTime (writeTime micros ++ writeOffset offset) =
      some ([micros / 3600000000, micros / 60000000 % 60, micros / 1000000 % 60], micros % 1000000, offset) := by
  have hnot : ∀ c ∈ writeTime micros, (!isZoneMark c) = true := fun c hc => not_zoneMark_of_mem hc
  unfold parseTime
  rw [List.takeWhile_append_of_pos hnot, List.dropWhile_append_of_pos hnot]
  cases offset with
  | none =>
    rw [writeOffset, List.takeWhile_nil, List.append_nil, parseFields_writeTime h]
    rfl
  | some offset =>
    have hmark : isZoneMark (if offset < 0 then 0x2D else 0x2B) = true := by
      split
      · rfl
      · rfl
    have hne : (if offset < 0 then 0x2D else 0x2B) ≠ 0x5A := by
      split
      · decide
      · decide
    obtain ⟨fields, micro, hparse, hvalue⟩ := zone_of_offset (hoffset offset rfl) ((if offset < 0 then 0x2D else 0x2B) == 0x2D)
    rw [writeOffset, List.takeWhile_cons_of_neg (by rw [hmark]; decide), List.dropWhile_cons_of_neg (by rw [hmark]; decide),
      List.append_nil, parseFields_writeTime h]
    simp only [Option.bind_eq_bind, Option.bind_some]
    rw [if_neg hne, hparse]
    simp only [Option.bind_some, hvalue]
    rw [if_pos (by rfl)]
    have hsign : (if ((if offset < 0 then 0x2D else 0x2B) == 0x2D) = true then -(offset.natAbs : ℤ) else offset.natAbs) = offset := by
      by_cases hneg : offset < 0
      · rw [if_pos hneg, if_pos BEq.rfl]
        omega
      · rw [if_neg hneg, if_neg (by decide)]
        omega
    rw [hsign]

/-! ### Datetimes -/

theorem encodeUtf8_ascii {text : PyStr} (h : ∀ c ∈ text, c < 0x80) : encodeUtf8 text = some text := by
  induction text with
  | nil => rfl
  | cons c rest ih =>
    rw [encodeUtf8, if_pos (h c List.mem_cons_self), ih fun d hd => h d (List.mem_cons_of_mem c hd)]
    rfl

theorem sanitize_ascii {text : PyStr} (h : ∀ c ∈ text, c < 0x80) : sanitize text = text := by
  have hlt : ∀ place, text.getD place 0 < 0x80 := by
    intro place
    rw [List.getD_eq_getElem?_getD]
    cases hc : text[place]? with
    | none => decide
    | some c => exact h c (List.mem_of_getElem? hc)
  have hnone : ([7, 8, 10].find? fun place => decide (0xD800 ≤ text.getD place 0 ∧ text.getD place 0 < 0xE000)) = none := by
    refine List.find?_eq_none.mpr fun place _ => ?_
    have := hlt place
    rw [decide_eq_true_iff]
    omega
  unfold sanitize
  rw [hnone]

/-- What a `datetime` holds, but for an offset that is shorter than a second: that is dropped when it is read. -/
def Readable (value : Datetime) : Prop :=
  (-(719162 * 86400000000) ≤ value.wall ∧ value.wall < 2932897 * 86400000000) ∧ ∀ offset ∈ value.offset, OffsetIsValid offset

/-- The time of a day, and the day, of a time that a `datetime` can hold. -/
theorem day_and_time {wall : ℤ} (h : -(719162 * 86400000000) ≤ wall ∧ wall < 2932897 * 86400000000) :
    1 ≤ (wall / dayMicros + epochOrdinal).toNat ∧ (wall / dayMicros + epochOrdinal).toNat ≤ maxOrdinal ∧
      (wall % dayMicros).toNat < dayMicros ∧
      (((wall / dayMicros + epochOrdinal).toNat : ℤ) - epochOrdinal) * dayMicros + (wall % dayMicros).toNat = wall := by
  obtain ⟨hlo, hhi⟩ := h
  unfold dayMicros epochOrdinal maxOrdinal
  have hm := Int.emod_nonneg wall (show (86400000000 : ℤ) ≠ 0 by decide)
  have hl := Int.emod_lt_of_pos wall (show (0 : ℤ) < 86400000000 by decide)
  have he := Int.mul_ediv_add_emod wall 86400000000
  push_cast
  refine ⟨?_, ?_, ?_, ?_⟩
  · omega
  · omega
  · omega
  · omega

/-- The fields of a time of day are assembled to it. -/
theorem assemble_fields {date : Date} (hdate : date.IsValid) {micros : ℕ} (h : micros < dayMicros) (offset : Option ℤ) :
    assemble date [micros / 3600000000, micros / 60000000 % 60, micros / 1000000 % 60] (micros % 1000000) offset =
      some ⟨((toOrdinal date : ℤ) - epochOrdinal) * dayMicros + micros, offset⟩ := by
  unfold dayMicros at h
  have hmicros : ((micros / 3600000000 * 60 + micros / 60000000 % 60) * 60 + micros / 1000000 % 60) * 1000000 + micros % 1000000 =
      micros := by omega
  unfold assemble build
  simp only [List.getD_cons_zero, List.getD_cons_succ]
  rw [if_neg (by omega), if_pos ⟨hdate, by omega, by omega, by omega⟩, hmicros]

/-- A datetime is read back from its text. -/
theorem fromisoformat_isoformat {value : Datetime} (h : Readable value) : fromisoformat (isoformat value) = some value := by
  obtain ⟨hwall, hoffset⟩ := h
  obtain ⟨h1, h2, hlt, hsum⟩ := day_and_time hwall
  obtain ⟨hvalid, hord⟩ := ofOrdinal_spec h1 h2
  have hascii : ∀ c ∈ isoformat value, c < 0x80 := fun c hc => Nat.lt_trans (mem_isoformat hc).lt.2 (by decide)
  unfold fromisoformat
  rw [sanitize_ascii hascii, encodeUtf8_ascii hascii]
  unfold isoformat
  generalize ofOrdinal (value.wall / dayMicros + epochOrdinal).toNat = date at *
  generalize (value.wall % dayMicros).toNat = micros at *
  obtain ⟨y1, y2, m1, m2, d1, d2⟩ := hvalid
  have hd31 : date.day < 10 ^ 2 := by
    have := daysInMonth_le (isLeap date.year) date.month
    omega
  have hlength : ¬(writeDate date ++ 0x54 :: (writeTime micros ++ writeOffset value.offset)).length ≤ 10 := by
    simp [writeDate_eq]
  have hdrop : (writeDate date ++ 0x54 :: (writeTime micros ++ writeOffset value.offset)).drop
      (10 + charWidth (byteAt (writeDate date ++ 0x54 :: (writeTime micros ++ writeOffset value.offset)) 10)) =
      writeTime micros ++ writeOffset value.offset := rfl
  simp only [Option.bind_eq_bind, Option.bind_some, separatorLocation_writeDate]
  rw [parseDate_writeDate (by omega) (by omega) hd31, Option.bind_some, if_neg hlength, hdrop, parseTime_write hlt hoffset,
    Option.bind_some, assemble_fields ⟨y1, y2, m1, m2, d1, d2⟩ hlt, hord, hsum]

end IsoFormat
