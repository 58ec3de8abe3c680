import FraudDetection.Theorems.Paging

/-!
# Tokens of cursors

A cursor comes back from its token as it was, and the token fits the endpoint's parameter. The other way round, a token may hold
anything. `PageCursor.decode` is meant to return a cursor whose time has an offset, or to raise `ValueError`; three kinds of tokens
make it do something else, and `cursor_decoding_iff` says that there are no others.
-/

namespace FraudDetection

/-! ## Every cursor comes back -/

/-- A cursor of any aware datetime and any id is read back from its token, which is URL-safe, has no padding, and is short enough
for the endpoint. -/
theorem cursor_round_trip (levels : ℕ) (occurredAt : AwareDatetime) (transactionId : Uuid) :
    PageCursor.decode (levels + 1) (PageCursor.encode ⟨occurredAt.toDatetime, transactionId⟩) =
        .ok ⟨occurredAt.toDatetime, transactionId⟩ ∧
      (∀ c ∈ PageCursor.encode ⟨occurredAt.toDatetime, transactionId⟩, Base64.UrlSafe c) ∧
      (PageCursor.encode ⟨occurredAt.toDatetime, transactionId⟩).length ≤ maxCursorLength ∧
      readCursor (some (PageCursor.encode ⟨occurredAt.toDatetime, transactionId⟩)) =
        .ok (some ⟨occurredAt.toDatetime, transactionId⟩) := by
  have hreadable : IsoFormat.Readable occurredAt.toDatetime := by
    refine ⟨⟨Int.le_trans (by decide) occurredAt.wall_ok.1, Int.lt_of_le_of_lt occurredAt.wall_ok.2 (by decide)⟩, ?_⟩
    intro offset hoffset
    cases hoffset
    -- an offset of whole seconds is none at all, or a second or more
    have hbound := occurredAt.offset_ok
    unfold IsoFormat.OffsetIsValid IsoFormat.dayMicros
    omega
  obtain ⟨hne, hlength⟩ := CursorAux.encode_length ⟨occurredAt.toDatetime, transactionId⟩
  have hdecode : ∀ n, PageCursor.decode (n + 1) (PageCursor.encode ⟨occurredAt.toDatetime, transactionId⟩) =
      .ok ⟨occurredAt.toDatetime, transactionId⟩ := fun n => CursorAux.decode_encode n hreadable
  refine ⟨hdecode levels, (Base64.unpad_encode_bounds (CursorAux.dumps_bytes _)).1, hlength.trans (by decide), ?_⟩
  have hlevels : maxCursorLength = 255 + 1 := rfl
  unfold readCursor
  split
  · rename_i h0
    cases h0
  · rename_i h0
    exact absurd (Option.some.inj h0) hne
  · rename_i token _ h0
    rw [← Option.some.inj h0, hlevels, hdecode]

/-! ## What a token may hold -/

section

variable (levels : ℕ) (token : PyStr)

/-- `decode` does what it says: it returns a cursor whose time has an offset, or raises `ValueError`. -/
def DecodesAsDocumented : Prop :=
  (∃ cursor, PageCursor.decode levels token = .ok cursor ∧ cursor.occurredAt.offset ≠ none) ∨
    PageCursor.decode levels token = .error .valueError

/-- The endpoint answers a token with a page or with status 400, in a request whose other parameters are in bounds and whose filters the
database takes. One that is too long for its parameter never reaches `decode`. -/
def AnswersAsDocumented (naive : NaiveTimes) : Prop :=
  ∀ (rows : List TransactionRecord) (filters : TransactionFilters) (limit : ℤ), filters.Taken naive →
    1 ≤ limit ∧ limit ≤ maxPageSize →
    (∃ page, listTransactionDecisions naive rows filters limit (some token) = .ok page) ∨
      (∃ detail, listTransactionDecisions naive rows filters limit (some token) = .error ⟨400, detail⟩) ∨
      (maxCursorLength < token.length ∧
        ∃ detail, listTransactionDecisions naive rows filters limit (some token) = .error ⟨422, detail⟩)

/-- A token holds an object with a time under `o`, which can be read, and a value under `t`. -/
def Holds (occurredAt : Datetime) (t : DecimalJson) : Prop :=
  ∃ entries o, PageCursor.payload levels token = .ok (.obj entries) ∧ DecimalJson.lookup entries "o" = some (.str o) ∧
    IsoFormat.fromisoformat o = some occurredAt ∧ DecimalJson.lookup entries "t" = some t

/-- The JSON of a token is nested deeper than the interpreter's stack has room for. -/
def NestsTooDeep : Prop := PageCursor.payload levels token = .error .recursionError

/-- A token holds a time, and under `t` a value that is neither `null` nor a string. -/
def HoldsNoText : Prop := ∃ occurredAt t, Holds levels token occurredAt t ∧ t ≠ .null ∧ ∀ s, t ≠ .str s

/-- A token holds a time without an offset, and an id. -/
def LacksOffset : Prop :=
  ∃ occurredAt t, Holds levels token occurredAt (.str t) ∧ Uuid.ofText t ≠ none ∧ occurredAt.offset = none

/-- A token holds an id and a time with an offset, which is out of range in UTC. -/
def OutOfRange : Prop :=
  ∃ occurredAt t, Holds levels token occurredAt (.str t) ∧ Uuid.ofText t ≠ none ∧
    ∃ offset, occurredAt.offset = some offset ∧ datetimeOf (occurredAt.wall - offset) = none

end

namespace CursorsAux

variable {levels : ℕ} {token : PyStr}

/-! ### What `decode` returns and raises -/

theorem ofPayload_ok_iff {payload : DecimalJson} {cursor : PageCursor} :
    PageCursor.ofPayload payload = .ok cursor ↔
      ∃ entries o t, payload = .obj entries ∧ DecimalJson.lookup entries "o" = some (.str o) ∧
        IsoFormat.fromisoformat o = some cursor.occurredAt ∧ DecimalJson.lookup entries "t" = some (.str t) ∧
        Uuid.ofText t = some cursor.transactionId := by
  constructor
  · intro h
    unfold PageCursor.ofPayload at h
    split at h
    · rename_i entries
      split at h
      · rename_i o ho
        split at h
        · cases h
        · rename_i occurredAt hread
          split at h
          · rename_i t ht
            split at h
            · cases h
            · rename_i transactionId hid
              cases h
              exact ⟨entries, o, t, rfl, ho, hread, ht, hid⟩
          · cases h
          · cases h
          · cases h
      · cases h
    · cases h
  · rintro ⟨entries, o, t, rfl, ho, hread, ht, hid⟩
    unfold PageCursor.ofPayload
    simp only [ho, hread, ht, hid]

theorem ofPayload_attributeError_iff {payload : DecimalJson} :
    PageCursor.ofPayload payload = .error .attributeError ↔
      ∃ entries o occurredAt t, payload = .obj entries ∧ DecimalJson.lookup entries "o" = some (.str o) ∧
        IsoFormat.fromisoformat o = some occurredAt ∧ DecimalJson.lookup entries "t" = some t ∧ t ≠ .null ∧ ∀ s, t ≠ .str s := by
  constructor
  · intro h
    unfold PageCursor.ofPayload at h
    split at h
    · rename_i entries
      split at h
      · rename_i o ho
        split at h
        · cases h
        · rename_i occurredAt hread
          split at h
          · split at h
            · cases h
            · cases h
          · cases h
          · cases h
          · rename_i t hstr hnull ht
            exact ⟨entries, o, occurredAt, t, rfl, ho, hread, ht, hnull, fun s hs => hstr s hs⟩
      · cases h
    · cases h
  · rintro ⟨entries, o, occurredAt, t, rfl, ho, hread, ht, hnull, hstr⟩
    unfold PageCursor.ofPayload
    simp only [ho, hread, ht]

theorem ofPayload_ne_recursionError (payload : DecimalJson) : PageCursor.ofPayload payload ≠ .error .recursionError := by
  intro h
  unfold PageCursor.ofPayload at h
  repeat' split at h
  all_goals cases h

theorem payload_ne_attributeError : PageCursor.payload levels token ≠ .error .attributeError := by
  intro h
  unfold PageCursor.payload at h
  repeat' split at h
  all_goals cases h

/-- `decode` returns what a token holds. -/
theorem decode_ok_iff {cursor : PageCursor} :
    PageCursor.decode levels token = .ok cursor ↔
      ∃ t, Holds levels token cursor.occurredAt (.str t) ∧ Uuid.ofText t = some cursor.transactionId := by
  unfold PageCursor.decode Holds
  rw [Except.bind_eq_ok]
  constructor
  · rintro ⟨payload, hpayload, h⟩
    obtain ⟨entries, o, t, rfl, ho, hread, ht, hid⟩ := ofPayload_ok_iff.mp h
    exact ⟨t, ⟨entries, o, hpayload, ho, hread, ht⟩, hid⟩
  · rintro ⟨t, ⟨entries, o, hpayload, ho, hread, ht⟩, hid⟩
    exact ⟨_, hpayload, ofPayload_ok_iff.mpr ⟨entries, o, t, rfl, ho, hread, ht, hid⟩⟩

theorem decode_attributeError_iff : PageCursor.decode levels token = .error .attributeError ↔ HoldsNoText levels token := by
  unfold PageCursor.decode HoldsNoText Holds
  rw [Except.bind_eq_error]
  constructor
  · rintro (h | ⟨payload, hpayload, h⟩)
    · exact absurd h payload_ne_attributeError
    · obtain ⟨entries, o, occurredAt, t, rfl, ho, hread, ht, hnot⟩ := ofPayload_attributeError_iff.mp h
      exact ⟨occurredAt, t, ⟨entries, o, hpayload, ho, hread, ht⟩, hnot⟩
  · rintro ⟨occurredAt, t, ⟨entries, o, hpayload, ho, hread, ht⟩, hnot⟩
    exact .inr ⟨_, hpayload, ofPayload_attributeError_iff.mpr ⟨entries, o, occurredAt, t, rfl, ho, hread, ht, hnot⟩⟩

theorem decode_recursionError_iff : PageCursor.decode levels token = .error .recursionError ↔ NestsTooDeep levels token := by
  unfold PageCursor.decode NestsTooDeep
  rw [Except.bind_eq_error]
  constructor
  · rintro (h | ⟨payload, -, h⟩)
    · exact h
    · exact absurd h (ofPayload_ne_recursionError payload)
  · exact .inl

/-- A cursor without an offset comes from a token that lacks one. -/
theorem lacksOffset_iff :
    LacksOffset levels token ↔ ∃ cursor, PageCursor.decode levels token = .ok cursor ∧ cursor.occurredAt.offset = none := by
  constructor
  · rintro ⟨occurredAt, t, hholds, hid, hoffset⟩
    obtain ⟨transactionId, hid⟩ := Option.ne_none_iff_exists'.mp hid
    exact ⟨⟨occurredAt, transactionId⟩, decode_ok_iff.mpr ⟨t, hholds, hid⟩, hoffset⟩
  · rintro ⟨cursor, hdecode, hoffset⟩
    obtain ⟨t, hholds, hid⟩ := decode_ok_iff.mp hdecode
    exact ⟨cursor.occurredAt, t, hholds, by rw [hid]; exact Option.some_ne_none _, hoffset⟩

theorem decodes_iff :
    DecodesAsDocumented levels token ↔ ¬NestsTooDeep levels token ∧ ¬HoldsNoText levels token ∧ ¬LacksOffset levels token := by
  unfold DecodesAsDocumented
  rw [← decode_recursionError_iff, ← decode_attributeError_iff, lacksOffset_iff]
  cases PageCursor.decode levels token with
  | ok cursor => simp
  | error e => cases e <;> simp

/-! ### What the endpoint answers -/

/-- No token that the endpoint decodes is nested too deep. -/
theorem not_nestsTooDeep (h : token.length ≤ maxCursorLength) : ¬NestsTooDeep maxCursorLength token := by
  have hrepad : (Base64.repad token).length ≤ maxCursorLength := @Base64.repad_length token 64 h
  have hshallow : ∀ raw, Base64.decode (Base64.repad token) = some raw →
      (JsonDecode.loadsWith JsonDecode.keepFloat maxCursorLength (raw.map UInt8.ofNat)).FailsOnly JsonDecode.Shallow := by
    intro raw hraw
    refine JsonDecode.loads_shallow (fun _ _ _ => Except.failsOnly_ok _) ?_
    rw [List.length_map]
    exact (Base64.decodeFrom_length hraw).trans hrepad
  intro h
  unfold NestsTooDeep PageCursor.payload at h
  split at h
  · split at h
    · cases h
    · rename_i raw hraw
      split at h
      · cases h
      · rename_i hloads
        exact hshallow raw hraw _ hloads rfl
      · cases h
  · cases h

/-- An empty token holds nothing. -/
theorem decode_nil : PageCursor.decode levels [] = .error .valueError := by
  cases levels with
  | zero => rfl
  | succ levels => rfl

/-- A driver that takes no time without an offset refuses the time of a cursor when it has none or is out of range. -/
theorem refused_iff {naive : NaiveTimes} (hnaive : ∀ wall, naive wall = none) :
    (∃ cursor, PageCursor.decode levels token = .ok cursor ∧ cursor.sortKey naive = none) ↔
      LacksOffset levels token ∨ OutOfRange levels token := by
  have hkey : ∀ cursor : PageCursor, cursor.sortKey naive = none ↔
      cursor.occurredAt.offset = none ∨
        ∃ offset, cursor.occurredAt.offset = some offset ∧ datetimeOf (cursor.occurredAt.wall - offset) = none := by
    intro cursor
    unfold PageCursor.sortKey timestamptz instantOf
    rw [Option.map_eq_none_iff]
    cases cursor.occurredAt.offset with
    | none => simp [hnaive]
    | some offset => simp
  constructor
  · rintro ⟨cursor, hdecode, hnone⟩
    rcases (hkey cursor).mp hnone with hoffset | hrange
    · exact .inl (lacksOffset_iff.mpr ⟨cursor, hdecode, hoffset⟩)
    · obtain ⟨t, hholds, hid⟩ := decode_ok_iff.mp hdecode
      exact .inr ⟨cursor.occurredAt, t, hholds, by rw [hid]; exact Option.some_ne_none _, hrange⟩
  · rintro (h | ⟨occurredAt, t, hholds, hid, hrange⟩)
    · obtain ⟨cursor, hdecode, hoffset⟩ := lacksOffset_iff.mp h
      exact ⟨cursor, hdecode, (hkey cursor).mpr (.inl hoffset)⟩
    · obtain ⟨transactionId, hid⟩ := Option.ne_none_iff_exists'.mp hid
      exact ⟨⟨occurredAt, transactionId⟩, decode_ok_iff.mpr ⟨t, hholds, hid⟩, (hkey _).mpr (.inr hrange)⟩

section

variable {naive : NaiveTimes} {rows : List TransactionRecord} {filters : TransactionFilters} {limit : ℤ}
  (hlimit : 1 ≤ limit ∧ limit ≤ maxPageSize) (htaken : filters.Taken naive)
  (hne : token ≠ []) (hlength : token.length ≤ maxCursorLength)

include hlimit

theorem listTransactions_cursor_refused {cursor : PageCursor} (h : cursor.sortKey naive = none) :
    listTransactions naive rows filters limit (some cursor) = .error .dataError := by
  have hcheck : checkPageSize limit = none := if_pos hlimit
  have hafter : (some cursor).mapM (PageCursor.sortKey naive) = none := by
    rw [Option.mapM_some, h]
    rfl
  unfold listTransactions
  simp only [hcheck, hafter]
  split
  · rename_i hsent
    cases hsent
  · rfl

include htaken in
/-- `list_transactions` returns a page for a cursor that the driver takes, and fails for one that it refuses. -/
theorem listTransactions_page {cursor : PageCursor} (h : cursor.sortKey naive ≠ none) :
    ∃ page, listTransactions naive rows filters limit (some cursor) = .ok page := by
  obtain ⟨key, hkey⟩ := Option.ne_none_iff_exists'.mp h
  have hcheck : checkPageSize limit = none := if_pos hlimit
  obtain ⟨occurredFrom, occurredTo, hcategory, hfrom, hto, -⟩ := PagingAux.filters_sent htaken
  have hafter : (some cursor).mapM (PageCursor.sortKey naive) = some (some key) := by
    rw [Option.mapM_some, hkey]
    rfl
  unfold listTransactions
  simp only [hcheck, hcategory, hfrom, hto, hafter]
  split
  · exact ⟨_, rfl⟩
  · exact ⟨_, rfl⟩

include hne hlength

include htaken in
/-- What the endpoint answers to a token that decodes, -/
theorem answer_ok {cursor : PageCursor} (hdecode : PageCursor.decode maxCursorLength token = .ok cursor) :
    (cursor.sortKey naive ≠ none → ∃ page, listTransactionDecisions naive rows filters limit (some token) = .ok page) ∧
      (cursor.sortKey naive = none →
        listTransactionDecisions naive rows filters limit (some token) = .error ⟨500, "An internal error occurred."⟩) := by
  obtain ⟨c, rest, rfl⟩ := List.exists_cons_of_ne_nil hne
  have hvalid := @PagingAux.parameters_ok limit hlimit (some (c :: rest)) fun t ht => Option.some.inj ht ▸ hlength
  have hread : readCursor (some (c :: rest)) = .ok (some cursor) := by
    simp only [readCursor, hdecode]
  constructor
  · intro h
    obtain ⟨⟨data, next⟩, hpage⟩ := listTransactions_page hlimit htaken h
    refine ⟨⟨data, limit, next.map PageCursor.encode⟩, ?_⟩
    unfold listTransactionDecisions
    rw [if_neg hvalid, hread, Except.ok_bind, hpage]
    rfl
  · intro h
    unfold listTransactionDecisions
    rw [if_neg hvalid, hread, Except.ok_bind, listTransactions_cursor_refused hlimit h]

/-- and to one that does not. -/
theorem answer_error {e : CursorError} (hdecode : PageCursor.decode maxCursorLength token = .error e) :
    ∃ detail, listTransactionDecisions naive rows filters limit (some token) =
      .error ⟨if e = .valueError then 400 else 500, detail⟩ := by
  obtain ⟨c, rest, rfl⟩ := List.exists_cons_of_ne_nil hne
  have hvalid := @PagingAux.parameters_ok limit hlimit (some (c :: rest)) fun t ht => Option.some.inj ht ▸ hlength
  unfold listTransactionDecisions
  rw [if_neg hvalid]
  cases e with
  | valueError =>
    refine ⟨"cursor is malformed or from a different query.", ?_⟩
    simp only [readCursor, hdecode, Except.error_bind, if_true]
  | attributeError =>
    refine ⟨"An internal error occurred.", ?_⟩
    simp only [readCursor, hdecode, Except.error_bind]
    rfl
  | recursionError =>
    refine ⟨"An internal error occurred.", ?_⟩
    simp only [readCursor, hdecode, Except.error_bind]
    rfl

end

/-- The endpoint answers a token as documented when it decodes to a cursor that the driver takes, or raises `ValueError`. -/
theorem answers_iff {naive : NaiveTimes} (hne : token ≠ []) (hlength : token.length ≤ maxCursorLength) :
    AnswersAsDocumented token naive ↔
      (∃ cursor, PageCursor.decode maxCursorLength token = .ok cursor ∧ cursor.sortKey naive ≠ none) ∨
        PageCursor.decode maxCursorLength token = .error .valueError := by
  have hshort : ¬maxCursorLength < token.length := not_lt.mpr hlength
  have hone : (1 : ℤ) ≤ 1 ∧ (1 : ℤ) ≤ maxPageSize := by decide
  have hany : TransactionFilters.Taken naive ⟨none, none, none, none, none, none⟩ := by
    refine ⟨?_, fun category hcategory => by cases hcategory⟩
    rintro bound (hbound | hbound) <;> cases hbound
  constructor
  · intro h
    have hfirst := h [] ⟨none, none, none, none, none, none⟩ 1 hany hone
    cases hdecode : PageCursor.decode maxCursorLength token with
    | ok cursor =>
      refine .inl ⟨cursor, rfl, fun hnone => ?_⟩
      rw [(answer_ok hone hany hne hlength hdecode).2 hnone] at hfirst
      simp [hshort] at hfirst
    | error e =>
      by_cases he : e = .valueError
      · rw [he]
        exact .inr rfl
      · have hanswer : ∃ detail, listTransactionDecisions naive [] ⟨none, none, none, none, none, none⟩ 1 (some token) =
            .error ⟨if e = .valueError then 400 else 500, detail⟩ := answer_error hone hne hlength hdecode
        obtain ⟨detail, hanswer⟩ := hanswer
        rw [hanswer, if_neg he] at hfirst
        simp [hshort] at hfirst
  · intro h rows filters limit htaken hlimit
    rcases h with ⟨cursor, hdecode, hkey⟩ | hdecode
    · exact .inl ((answer_ok hlimit htaken hne hlength hdecode).1 hkey)
    · exact .inr (.inl (answer_error hlimit hne hlength hdecode))

/-- A token that is too long is refused before it is decoded. -/
theorem answers_long {naive : NaiveTimes} (h : maxCursorLength < token.length) : AnswersAsDocumented token naive := by
  intro rows filters limit _ _
  refine .inr (.inr ⟨h, "Request validation failed.", ?_⟩)
  unfold listTransactionDecisions
  rw [if_pos (.inr (.inr (by rw [Option.any_some, decide_eq_true_iff]; exact h)))]

/-- An empty token is none. -/
theorem answers_nil {naive : NaiveTimes} : AnswersAsDocumented [] naive := by
  intro rows filters limit htaken hlimit
  have hread : readCursor (some []) = .ok ((none : Option TransactionRecord).map PagingAux.cursorAt) := rfl
  exact .inl ⟨_, PagingAux.listTransactionDecisions_eq hlimit htaken rows (by simp) hread (by simp)⟩

end CursorsAux

open CursorsAux

/-- `PageCursor.decode` does what it says exactly for the tokens that are not nested too deep, that do not hold a time with a `t` that
is no text, and that do not hold a time without an offset with an id. Beside a driver that takes no time without an offset, the
endpoint answers a token with a page or with status 400 exactly when it is too long to be decoded, or is of neither of the last two
kinds and does not hold a time that is out of range in UTC with an id. -/
theorem cursor_decoding_iff {naive : NaiveTimes} (hnaive : ∀ wall, naive wall = none) (levels : ℕ) (token : PyStr) :
    (DecodesAsDocumented levels token ↔
      ¬NestsTooDeep levels token ∧ ¬HoldsNoText levels token ∧ ¬LacksOffset levels token) ∧
    (AnswersAsDocumented token naive ↔
      maxCursorLength < token.length ∨
        ¬HoldsNoText maxCursorLength token ∧ ¬LacksOffset maxCursorLength token ∧ ¬OutOfRange maxCursorLength token) := by
  refine ⟨decodes_iff, ?_⟩
  by_cases hlong : maxCursorLength < token.length
  · exact iff_of_true (answers_long hlong) (.inl hlong)
  have hlength := not_lt.mp hlong
  rw [or_iff_right hlong, ← not_or, ← not_or, ← refused_iff hnaive, ← decode_attributeError_iff]
  by_cases hne : token = []
  · rw [hne]
    refine iff_of_true answers_nil ?_
    rw [decode_nil]
    simp
  have hdepth : PageCursor.decode maxCursorLength token ≠ .error .recursionError := fun h =>
    not_nestsTooDeep hlength (decode_recursionError_iff.mp h)
  rw [answers_iff hne hlength]
  cases hdecode : PageCursor.decode maxCursorLength token with
  | ok cursor => simp
  | error e =>
    cases e with
    | valueError => simp
    | attributeError => simp
    | recursionError => exact absurd hdecode hdepth

namespace CursorsExample

/-- A driver that takes no time without an offset. -/
def aware : NaiveTimes := fun _ => none

/-- `{"o":"2024-01-01T00:00:00Z","t":1}`: the id is a number. -/
def numberId : PyStr := PyStr.ofString "eyJvIjoiMjAyNC0wMS0wMVQwMDowMDowMFoiLCJ0IjoxfQ"

/-- `{"o":"2024-01-01","t":"00000000000000000000000000000001"}`: the time has no offset. -/
def noOffset : PyStr := PyStr.ofString "eyJvIjoiMjAyNC0wMS0wMSIsInQiOiIwMDAwMDAwMDAwMDAwMDAwMDAwMDAwMDAwMDAwMDAwMSJ9"

/-- `{"o":"0001-01-01T00:00+23:59","t":"00000000000000000000000000000001"}`: the time is in the year 0 in UTC. -/
def yearZero : PyStr :=
  PyStr.ofString "eyJvIjoiMDAwMS0wMS0wMVQwMDowMCsyMzo1OSIsInQiOiIwMDAwMDAwMDAwMDAwMDAwMDAwMDAwMDAwMDAwMDAwMSJ9"

theorem decode_numberId : PageCursor.decode maxCursorLength numberId = .error .attributeError := by decide +kernel

theorem decode_noOffset : PageCursor.decode maxCursorLength noOffset = .ok ⟨⟨1704067200000000, none⟩, ⟨1⟩⟩ := by decide +kernel

theorem decode_yearZero :
    PageCursor.decode maxCursorLength yearZero = .ok ⟨⟨-62135596800000000, some 86340000000⟩, ⟨1⟩⟩ := by decide +kernel

end CursorsExample

open CursorsExample in
/-- A token with a number for an id. -/
theorem cursor_decoding_iff_numberId :
    (DecodesAsDocumented maxCursorLength numberId ↔
      ¬NestsTooDeep maxCursorLength numberId ∧ ¬HoldsNoText maxCursorLength numberId ∧ ¬LacksOffset maxCursorLength numberId) ∧
    (AnswersAsDocumented numberId aware ↔
      maxCursorLength < numberId.length ∨
        ¬HoldsNoText maxCursorLength numberId ∧ ¬LacksOffset maxCursorLength numberId ∧ ¬OutOfRange maxCursorLength numberId) :=
  cursor_decoding_iff (fun _ => rfl) maxCursorLength numberId

open CursorsExample in
/-- A number for an id leaves `decode` as `AttributeError`, a time without an offset is accepted, and the endpoint answers both with
status 500, as it does a time that is out of range in UTC. -/
theorem cursor_decoding_false :
    (¬DecodesAsDocumented maxCursorLength numberId ∧ ¬AnswersAsDocumented numberId aware) ∧
      (¬DecodesAsDocumented maxCursorLength noOffset ∧ ¬AnswersAsDocumented noOffset aware) ∧
      ¬AnswersAsDocumented yearZero aware := by
  have hnumber : ¬AnswersAsDocumented numberId aware := by
    rw [answers_iff (by decide) (by decide), decode_numberId]
    simp
  have hnaive : ¬AnswersAsDocumented noOffset aware := by
    rw [answers_iff (by decide) (by decide), decode_noOffset]
    simp [PageCursor.sortKey, timestamptz, instantOf, aware]
  have hyear : ¬AnswersAsDocumented yearZero aware := by
    rw [answers_iff (by decide) (by decide), decode_yearZero]
    simp [PageCursor.sortKey, timestamptz, instantOf, datetimeOf, datetimeMin]
  refine ⟨⟨?_, hnumber⟩, ⟨?_, hnaive⟩, hyear⟩
  · unfold DecodesAsDocumented
    rw [decode_numberId]
    simp
  · unfold DecodesAsDocumented
    rw [decode_noOffset]
    simp

end FraudDetection
