import FraudDetection.Lemmas.Cursor
import FraudDetection.Observability

/-!
# Ids that callers choose

An id goes into every log line of a request and into its response headers. `_SAFE_ID` is meant to let through only short ids of
harmless characters. It lets through one thing more: such an id with a newline after it, because `$` also matches before a newline at
the end. `ids_safe_iff` says that this is all, and `newline_id_false` shows it.
-/

namespace FraudDetection

/-- From 1 to 128 characters, each a letter or a digit of ASCII, a point, an underscore, a colon or a hyphen. -/
def IsSafeId (s : PyStr) : Prop := 1 ≤ s.length ∧ s.length ≤ 128 ∧ ∀ c ∈ s, isSafeChar c = true

instance (s : PyStr) : Decidable (IsSafeId s) := inferInstanceAs (Decidable (_ ∧ _))

variable {α ε : Type}

/-- The id itself, if it is safe. -/
def SuppliedId.ifSafe : SuppliedId α → Option PyStr
  | .str s => if IsSafeId s then some s else none
  | .other _ => none

/-- A safe id with a newline after it. -/
def SuppliedId.SafeThenNewline (id : SuppliedId α) : Prop := ∃ body, IsSafeId body ∧ id = .str (body ++ [0x0A])

/-- What `bind_correlation_id` returns is safe, and is what the context now holds. -/
def BoundSafely (bound : PyStr × LogContext) : Prop :=
  IsSafeId bound.1 ∧ bound.2.current = some bound.1 ∧ bound.2.correlationId = some bound.1

/-- Both ids in the log context of a request are safe, and a response carries them and no others. -/
def Dispatched.IdsSafe (d : Dispatched ε) : Prop :=
  ∃ requestId correlationId, IsSafeId requestId ∧ IsSafeId correlationId ∧
    d.context = ⟨some correlationId, some correlationId, some requestId⟩ ∧
    ∀ response, d.result = .ok response →
      response.headers.filter (fun header => header.1 = requestIdHeader) = [(requestIdHeader, requestId)] ∧
      response.headers.filter (fun header => header.1 = correlationIdHeader) = [(correlationIdHeader, correlationId)]

namespace CorrelationIdsAux

/-! ### Ids -/

theorem not_safe_newline (body : PyStr) : ¬IsSafeId (body ++ [0x0A]) := by
  rintro ⟨-, -, h⟩
  exact absurd (h 0x0A (List.mem_append_right _ (List.mem_singleton_self _))) (by decide)

theorem isMatch_safeId (s : PyStr) :
    Regex.isMatch 0x0A safeId s = true ↔ IsSafeId s ∨ ∃ body, IsSafeId body ∧ s = body ++ [0x0A] := by
  rw [safeId, Regex.isMatch_anchored]
  constructor
  · rintro ⟨body, rfl | rfl, h⟩
    · exact .inl h
    · exact .inr ⟨body, h, rfl⟩
  · rintro (h | ⟨body, h, rfl⟩)
    · exact ⟨s, .inl rfl, h⟩
    · exact ⟨body, .inr rfl, h⟩

/-- What is accepted: the safe ids, and with `SafeThenNewline` also those. -/
theorem sanitise_cases (id : SuppliedId α) :
    ¬id.SafeThenNewline ∧ sanitiseCorrelationId id = id.ifSafe ∨
      ∃ body, IsSafeId body ∧ id = .str (body ++ [0x0A]) ∧ sanitiseCorrelationId id = some (body ++ [0x0A]) := by
  cases id with
  | other a =>
    refine .inl ⟨?_, rfl⟩
    rintro ⟨body, -, h⟩
    cases h
  | str s =>
    by_cases hn : ∃ body, IsSafeId body ∧ s = body ++ [0x0A]
    · obtain ⟨body, hbody, rfl⟩ := hn
      refine .inr ⟨body, hbody, rfl, ?_⟩
      rw [sanitiseCorrelationId, if_pos ((isMatch_safeId _).mpr (.inr ⟨body, hbody, rfl⟩))]
    · refine .inl ⟨?_, ?_⟩
      · rintro ⟨body, hbody, h⟩
        exact hn ⟨body, hbody, SuppliedId.str.inj h⟩
      · have hm : Regex.isMatch 0x0A safeId s = true ↔ IsSafeId s := (isMatch_safeId s).trans (or_iff_left hn)
        rw [sanitiseCorrelationId, SuppliedId.ifSafe]
        simp only [hm]

theorem sanitise_iff (id : SuppliedId α) : sanitiseCorrelationId id = id.ifSafe ↔ ¬id.SafeThenNewline := by
  rcases sanitise_cases id with ⟨hn, h⟩ | ⟨body, hbody, rfl, h⟩
  · exact iff_of_true h hn
  · refine iff_of_false (fun he => ?_) fun hn => hn ⟨body, hbody, rfl⟩
    rw [h, SuppliedId.ifSafe, if_neg (not_safe_newline body)] at he
    cases he

theorem safe_text (uuid : Uuid) : IsSafeId uuid.text := by
  have hex : ∀ d < 16, isSafeChar (HexText.hexChar d) = true := by decide
  refine ⟨?_, ?_, ?_⟩
  · rw [CursorAux.text_length]
    decide
  · rw [CursorAux.text_length]
    decide
  · intro c hc
    rcases CursorAux.mem_text hc with rfl | hc
    · decide
    · obtain ⟨d, hd, rfl⟩ := FixedDigits.mem_write (by decide) hc
      exact hex d hd

/-- The id that is used is safe, unless the supplied one is safe but for a newline after it. -/
theorem orNewId_safe_iff (id : SuppliedId α) (uuid : Uuid) :
    IsSafeId (orNewId (sanitiseCorrelationId id) uuid) ↔ ¬id.SafeThenNewline := by
  rcases sanitise_cases id with ⟨hn, h⟩ | ⟨body, hbody, rfl, h⟩
  · refine iff_of_true ?_ hn
    rw [h]
    cases id with
    | other a => exact safe_text uuid
    | str s =>
      rw [SuppliedId.ifSafe]
      by_cases hs : IsSafeId s
      · rw [if_pos hs]
        cases s with
        | nil => exact safe_text uuid
        | cons c s => exact hs
      · rw [if_neg hs]
        exact safe_text uuid
  · refine iff_of_false ?_ fun hn => hn ⟨body, hbody, rfl⟩
    have hused : orNewId (some (body ++ [0x0A])) uuid = body ++ [0x0A] := by cases body <;> rfl
    rw [h, hused]
    exact not_safe_newline body

/-! ### Headers -/

theorem filter_set_self (headers : HttpHeaders) (name : String) (value : PyStr) :
    (headers.set name value).filter (fun header => header.1 = name) = [(name, value)] := by
  induction headers with
  | nil => rw [HttpHeaders.set, List.filter_cons_of_pos (by simp), List.filter_nil]
  | cons header headers ih =>
    rw [HttpHeaders.set]
    by_cases h : header.1 = name
    · rw [if_pos h, List.filter_cons_of_pos (by simp), List.filter_filter]
      congr 1
      refine List.filter_eq_nil_iff.mpr fun other _ => ?_
      by_cases ho : other.1 = name
      · simp [ho]
      · simp [ho]
    · rw [if_neg h, List.filter_cons_of_neg (by simpa using h)]
      exact ih

theorem filter_set_other (headers : HttpHeaders) {name other : String} (hne : other ≠ name) (value : PyStr) :
    (headers.set name value).filter (fun header => header.1 = other) = headers.filter fun header => header.1 = other := by
  induction headers with
  | nil => rw [HttpHeaders.set, List.filter_cons_of_neg (by simpa using hne.symm)]
  | cons header headers ih =>
    rw [HttpHeaders.set]
    by_cases h : header.1 = name
    · rw [if_pos h, List.filter_cons_of_neg (by simpa using hne.symm), List.filter_filter,
        List.filter_cons_of_neg (by simpa [h] using hne.symm)]
      refine List.filter_congr fun entry _ => ?_
      by_cases he : entry.1 = other
      · simp [he, hne]
      · simp [he]
    · rw [if_neg h, List.filter_cons, List.filter_cons, ih]

theorem bound_iff (id : SuppliedId α) (uuid : Uuid) (context : LogContext) :
    BoundSafely (bindCorrelationId id uuid context) ↔ ¬id.SafeThenNewline := by
  rw [← orNewId_safe_iff id uuid]
  constructor
  · intro h
    exact h.1
  · intro h
    exact ⟨h, rfl, rfl⟩

theorem dispatched_iff (headers : HttpHeaders) (requestUuid correlationUuid : Uuid) (callNext : LogContext → Except ε Response) :
    (dispatch headers requestUuid correlationUuid callNext).IdsSafe ↔
      ¬(headers.get requestIdHeader).SafeThenNewline ∧ ¬(headers.get correlationIdHeader).SafeThenNewline := by
  rw [← orNewId_safe_iff _ requestUuid, ← orNewId_safe_iff _ correlationUuid]
  constructor
  · rintro ⟨requestId, correlationId, hrequest, hcorrelation, hcontext, -⟩
    injection hcontext with h1 h2 h3
    rw [Option.some.inj h3, Option.some.inj h1]
    exact ⟨hrequest, hcorrelation⟩
  · rintro ⟨hrequest, hcorrelation⟩
    refine ⟨_, _, hrequest, hcorrelation, rfl, ?_⟩
    intro response hresponse
    unfold dispatch at hresponse
    obtain ⟨inner, -, rfl⟩ := Except.map_eq_ok.mp hresponse
    constructor
    · rw [filter_set_other _ (by decide), filter_set_self]
    · rw [filter_set_self]
      rfl

end CorrelationIdsAux

/-! ## Safe ids -/

/-- An id is returned exactly if it is safe, and the ids in the log context and in the response headers are safe: each exactly when
no supplied id is safe but for a newline after it. -/
theorem ids_safe_iff :
    (∀ id : SuppliedId α, sanitiseCorrelationId id = id.ifSafe ↔ ¬id.SafeThenNewline) ∧
    (∀ (id : SuppliedId α) (uuid : Uuid) (context : LogContext),
      BoundSafely (bindCorrelationId id uuid context) ↔ ¬id.SafeThenNewline) ∧
    ∀ (headers : HttpHeaders) (requestUuid correlationUuid : Uuid) (callNext : LogContext → Except ε Response),
      (dispatch headers requestUuid correlationUuid callNext).IdsSafe ↔
        ¬(headers.get requestIdHeader).SafeThenNewline ∧ ¬(headers.get correlationIdHeader).SafeThenNewline :=
  ⟨CorrelationIdsAux.sanitise_iff, CorrelationIdsAux.bound_iff, CorrelationIdsAux.dispatched_iff⟩

/-- An id with a newline after it. -/
def newlineId : PyStr := PyStr.ofString "order-1\n"

/-- It is accepted, bound and sent back. -/
theorem newline_id_false :
    ¬(∀ id : SuppliedId Unit, sanitiseCorrelationId id = id.ifSafe) ∧
    ¬BoundSafely (bindCorrelationId (.str newlineId : SuppliedId Unit) ⟨0⟩ .cleared) ∧
    ¬(dispatch [(requestIdHeader, newlineId), (correlationIdHeader, newlineId)] ⟨0⟩ ⟨0⟩
      fun _ => (.ok ⟨200, []⟩ : Except Unit Response)).IdsSafe := by
  have hunsafe : ¬IsSafeId newlineId := by decide
  refine ⟨?_, ?_, ?_⟩
  · intro h
    have hid := h (.str newlineId)
    rw [SuppliedId.ifSafe, if_neg hunsafe] at hid
    exact absurd hid (by decide)
  · rintro ⟨h, -⟩
    exact hunsafe h
  · rintro ⟨requestId, correlationId, h, -, hcontext, -⟩
    have hid : some newlineId = some requestId := congrArg LogContext.requestId hcontext
    rw [← Option.some.inj hid] at h
    exact hunsafe h

end FraudDetection
