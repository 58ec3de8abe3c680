import FraudDetection.Lemmas.Cursor
import FraudDetection.Paging
import FraudDetection.Theorems.Decisions

/-!
# Keyset pages are complete, ordered and disjoint

A walk keeps to a boundary: what is above it and was there at the first page has been returned, and nothing below it has. The
boundary is the sort key of the cursor, which a token carries from one request to the next unchanged. A walk fails just when the
database refuses a filter.
-/

namespace FraudDetection

/-! ## What a walk is for -/

/-- A row satisfies every filter: it is of the user, category, flag and verdict, not before the first time, and before the second. -/
structure TransactionFilters.Satisfied (naive : NaiveTimes) (filters : TransactionFilters) (row : TransactionRecord) : Prop where
  userId : ∀ userId ∈ filters.userId, row.userId = userId
  category : ∀ category ∈ filters.category, row.category = category
  isFraud : ∀ isFraud ∈ filters.isFraud, row.isFraud = isFraud
  verdict : ∀ verdict ∈ filters.verdict, row.verdict = verdict
  occurredFrom : ∀ bound ∈ filters.occurredFrom, ∀ start ∈ instantOf naive bound, start ≤ row.occurredAt
  occurredTo : ∀ bound ∈ filters.occurredTo, ∀ stop ∈ instantOf naive bound, row.occurredAt < stop

/-- The database takes the filters: a `datetime` in UTC can hold their times, and no U+0000 is in their category. -/
structure TransactionFilters.Taken (naive : NaiveTimes) (filters : TransactionFilters) : Prop where
  times : ∀ bound, filters.occurredFrom = some bound ∨ filters.occurredTo = some bound →
    ∃ t, instantOf naive bound = some t ∧ datetimeMin ≤ t ∧ t ≤ datetimeMax
  category : ∀ category ∈ filters.category, '\x00' ∉ category.toList

/-- What a walk has returned and has still to do: the rows of its pages are strictly descending by time and id, each of them once and
each a row of the table that satisfies the filters; when the walk has ended they include every such row that was there at its first
page. Only its last page has no cursor, and a page has none exactly when no such row is below what has been seen. Without further
inserts it ends, after at most one page more than there are rows. -/
structure WalkComplete (naive : NaiveTimes) (filters : TransactionFilters) (limit : ℤ) (s : PagingState) : Prop where
  descending : s.seen.Pairwise fun row next => next.sortKey < row.sortKey
  once : (s.seen.map (·.transactionId)).Nodup
  listed : ∀ row ∈ s.seen, row ∈ s.table.rows ∧ filters.Satisfied naive row
  complete : s.request = none → ∀ row ∈ s.before, filters.Satisfied naive row → row ∈ s.seen
  linked : ∀ init last, s.pages = init ++ [last] → s.request = last.nextCursor.map some ∧ ∀ page ∈ init, page.nextCursor ≠ none
  lastPage : ∀ s', (paging naive filters limit).step s .fetch = some s' →
    (s'.request = none ↔ ¬∃ row ∈ s'.table.rows, filters.Satisfied naive row ∧ ∀ r ∈ s'.seen, row.sortKey < r.sortKey)
  ends : s.request ≠ none → ∃ n ≤ s.table.rows.length + 1, ∃ s',
    (paging naive filters limit).run s (List.replicate n .fetch) = some s' ∧ s'.request = none

namespace PagingAux

variable {naive : NaiveTimes} {filters : TransactionFilters}

/-! ### The filters -/

instance (naive : NaiveTimes) (filters : TransactionFilters) (row : TransactionRecord) : Decidable (filters.Satisfied naive row) :=
  decidable_of_iff
    ((∀ userId ∈ filters.userId, row.userId = userId) ∧ (∀ category ∈ filters.category, row.category = category) ∧
      (∀ isFraud ∈ filters.isFraud, row.isFraud = isFraud) ∧ (∀ verdict ∈ filters.verdict, row.verdict = verdict) ∧
      (∀ bound ∈ filters.occurredFrom, ∀ start ∈ instantOf naive bound, start ≤ row.occurredAt) ∧
      ∀ bound ∈ filters.occurredTo, ∀ stop ∈ instantOf naive bound, row.occurredAt < stop)
    ⟨fun ⟨h1, h2, h3, h4, h5, h6⟩ => ⟨h1, h2, h3, h4, h5, h6⟩, fun ⟨h1, h2, h3, h4, h5, h6⟩ => ⟨h1, h2, h3, h4, h5, h6⟩⟩

/-- The rows that satisfy the filters, as a test. -/
def wanted (naive : NaiveTimes) (filters : TransactionFilters) (row : TransactionRecord) : Bool :=
  decide (filters.Satisfied naive row)

theorem wanted_iff {row : TransactionRecord} : wanted naive filters row = true ↔ filters.Satisfied naive row := decide_eq_true_iff

/-- The driver sends a time exactly when it is in range in UTC, and sends it as the time it is. -/
theorem timestamptz_eq_some {value : Datetime} {t : Timestamp} :
    timestamptz naive value = some t ↔ instantOf naive value = some t ∧ datetimeMin ≤ t ∧ t ≤ datetimeMax := by
  unfold timestamptz
  rw [Option.bind_eq_some_iff]
  constructor
  · rintro ⟨instant, hinstant, ht⟩
    unfold datetimeOf at ht
    split at ht
    · rename_i hrange
      cases ht
      exact ⟨hinstant, hrange⟩
    · cases ht
  · rintro ⟨hinstant, hrange⟩
    exact ⟨t, hinstant, if_pos hrange⟩

/-- It sends a bound of the filters, or there is none. -/
theorem bound_sent {bound : Option Datetime}
    (h : ∀ value, bound = some value → ∃ t, instantOf naive value = some t ∧ datetimeMin ≤ t ∧ t ≤ datetimeMax) :
    ∃ sent, bound.mapM (timestamptz naive) = some sent ∧
      ∀ t, sent = some t ↔ ∃ value, bound = some value ∧ instantOf naive value = some t := by
  cases bound with
  | none => exact ⟨none, rfl, by simp⟩
  | some value =>
    obtain ⟨t, hinstant, hrange⟩ := h value rfl
    refine ⟨some t, ?_, ?_⟩
    · simp [timestamptz_eq_some.mpr ⟨hinstant, hrange⟩]
    · simp [hinstant]

/-- It sends the category of the filters. -/
theorem category_sent {category : Option String} (h : ∀ text ∈ category, '\x00' ∉ text.toList) :
    category.mapM textParameter = some category := by
  cases category with
  | none => rfl
  | some text =>
    have hstorable : Jsonb.storable text = true := decide_eq_true (h text rfl)
    simp [textParameter, hstorable]

/-- What the `WHERE` clauses admit are the rows that satisfy the filters. -/
theorem filters_sent (h : filters.Taken naive) :
    ∃ occurredFrom occurredTo, filters.category.mapM textParameter = some filters.category ∧
      filters.occurredFrom.mapM (timestamptz naive) = some occurredFrom ∧
      filters.occurredTo.mapM (timestamptz naive) = some occurredTo ∧
      ∀ row, filters.admits occurredFrom occurredTo row = wanted naive filters row := by
  obtain ⟨occurredFrom, hfrom, hstart⟩ := bound_sent fun value hvalue => h.times value (.inl hvalue)
  obtain ⟨occurredTo, hto, hstop⟩ := bound_sent fun value hvalue => h.times value (.inr hvalue)
  refine ⟨occurredFrom, occurredTo, category_sent h.category, hfrom, hto, fun row => ?_⟩
  rw [Bool.eq_iff_iff, wanted_iff]
  unfold TransactionFilters.admits
  simp only [Bool.and_eq_true, Option.all_eq_true, decide_eq_true_eq, hstart, hstop]
  constructor
  · rintro ⟨⟨⟨⟨⟨huser, hcategory⟩, hfraud⟩, hverdict⟩, hfirst⟩, hlast⟩
    exact ⟨huser, hcategory, hfraud, hverdict, fun bound hbound start ht => hfirst start ⟨bound, hbound, ht⟩,
      fun bound hbound stop ht => hlast stop ⟨bound, hbound, ht⟩⟩
  · rintro ⟨huser, hcategory, hfraud, hverdict, hfirst, hlast⟩
    exact ⟨⟨⟨⟨⟨huser, hcategory⟩, hfraud⟩, hverdict⟩, fun start ⟨bound, hbound, ht⟩ => hfirst bound hbound start ht⟩,
      fun stop ⟨bound, hbound, ht⟩ => hlast bound hbound stop ht⟩

/-- A filter that is refused fails the listing, whatever else is asked for. -/
theorem listTransactions_refused {limit : ℤ} (hlimit : 1 ≤ limit ∧ limit ≤ maxPageSize) (h : ¬filters.Taken naive)
    (rows : List TransactionRecord) (cursor : Option PageCursor) :
    listTransactions naive rows filters limit cursor = .error .dataError := by
  have hcheck : checkPageSize limit = none := if_pos hlimit
  unfold listTransactions
  simp only [hcheck]
  split
  · rename_i sent occurredFrom occurredTo after hcategory hfrom hto hafter
    refine absurd ⟨fun bound hbound => ?_, fun category hbound => ?_⟩ h
    · have hsent : ∃ t, timestamptz naive bound = some t := by
        rcases hbound with hbound | hbound
        · rw [hbound, Option.mapM_some] at hfrom
          exact (Option.map_eq_some_iff.mp hfrom).imp fun t ht => ht.1
        · rw [hbound, Option.mapM_some] at hto
          exact (Option.map_eq_some_iff.mp hto).imp fun t ht => ht.1
      obtain ⟨t, ht⟩ := hsent
      exact ⟨t, timestamptz_eq_some.mp ht⟩
    · rw [Option.mem_def.mp hbound, Option.mapM_some] at hcategory
      obtain ⟨text, htext, -⟩ := Option.map_eq_some_iff.mp hcategory
      unfold textParameter at htext
      split at htext
      · rename_i hstorable
        exact of_decide_eq_true hstorable
      · cases htext
  · rfl

/-! ### One page -/

/-- Where a cursor that was given out with a row stands in the listing. -/
def boundary : Option TransactionRecord → Keyset.Boundary SortKey
  | none => .start
  | some row => .after row.sortKey

/-- The cursor after a row. -/
def cursorAt (row : TransactionRecord) : PageCursor := ⟨utc row.occurredAt, row.transactionId⟩

/-- A time that a `datetime` can hold. -/
def InRange (row : TransactionRecord) : Prop := datetimeMin ≤ row.occurredAt ∧ row.occurredAt ≤ datetimeMax

/-- The driver takes the time of a row, and sends it as the time it is. -/
theorem cursorAt_sortKey {row : TransactionRecord} (h : InRange row) : (cursorAt row).sortKey naive = some row.sortKey := by
  have hparameter : timestamptz naive (utc row.occurredAt) = some row.occurredAt := by
    refine timestamptz_eq_some.mpr ⟨?_, h⟩
    simp only [instantOf, utc, Int.sub_zero]
  unfold PageCursor.sortKey cursorAt
  rw [hparameter]
  rfl

/-- `list_transactions` returns a page of what remains. -/
theorem listTransactions_eq {limit : ℤ} (hlimit : 1 ≤ limit ∧ limit ≤ maxPageSize) (htaken : filters.Taken naive)
    (rows : List TransactionRecord) {last : Option TransactionRecord} (hlast : ∀ row ∈ last, InRange row) :
    listTransactions naive rows filters limit (last.map cursorAt) =
      let page := Keyset.page limit.toNat (Keyset.remaining TransactionRecord.sortKey (wanted naive filters) (boundary last) rows)
      .ok (page.1, page.2.map cursorAt) := by
  have hcheck : checkPageSize limit = none := if_pos hlimit
  have hafter : (last.map cursorAt).mapM (PageCursor.sortKey naive) = some (last.map TransactionRecord.sortKey) := by
    cases last with
    | none => rfl
    | some row => simp [cursorAt_sortKey (hlast row rfl)]
  obtain ⟨occurredFrom, occurredTo, hcategory, hfrom, hto, hadmits⟩ := filters_sent htaken
  have hfilter : (rows.filter fun row => filters.admits occurredFrom occurredTo row &&
        (last.map TransactionRecord.sortKey).all fun key => decide (row.sortKey < key)) =
      rows.filter fun row => wanted naive filters row && !decide ((boundary last).Passed row.sortKey) := by
    refine List.filter_congr fun row _ => ?_
    rw [hadmits row]
    congr 1
    cases last with
    | none => rfl
    | some r =>
      rw [Option.map_some, Option.all_some, ← decide_not, decide_eq_decide]
      exact not_le.symm
  unfold listTransactions
  simp only [hcheck, hcategory, hfrom, hto, hafter, hfilter]
  unfold Keyset.page Keyset.remaining
  simp only
  split
  · rfl
  · rfl

/-- The endpoint's parameters are in bounds. -/
theorem parameters_ok {limit : ℤ} (hlimit : 1 ≤ limit ∧ limit ≤ maxPageSize) {token : Option PyStr}
    (hlen : ∀ t ∈ token, t.length ≤ maxCursorLength) :
    ¬(limit < 1 ∨ maxPageSize < limit ∨ token.any (fun t => decide (maxCursorLength < t.length)) = true) := by
  rintro (h | h | h)
  · omega
  · omega
  · cases token with
    | none => cases h
    | some t =>
      have := hlen t rfl
      have := of_decide_eq_true h
      omega

/-- The endpoint returns that page, for a token of the cursor. -/
theorem listTransactionDecisions_eq {limit : ℤ} (hlimit : 1 ≤ limit ∧ limit ≤ maxPageSize) (htaken : filters.Taken naive)
    (rows : List TransactionRecord) {token : Option PyStr} {last : Option TransactionRecord} (hlast : ∀ row ∈ last, InRange row)
    (hread : readCursor token = .ok (last.map cursorAt)) (hlen : ∀ t ∈ token, t.length ≤ maxCursorLength) :
    listTransactionDecisions naive rows filters limit token =
      let page := Keyset.page limit.toNat (Keyset.remaining TransactionRecord.sortKey (wanted naive filters) (boundary last) rows)
      .ok ⟨page.1, limit, (page.2.map cursorAt).map PageCursor.encode⟩ := by
  unfold listTransactionDecisions
  rw [if_neg (parameters_ok hlimit hlen), hread, Except.ok_bind, listTransactions_eq hlimit htaken rows hlast]
  rfl

/-- A token that the endpoint gave out is read as the cursor it was. -/
theorem readCursor_encode {row : TransactionRecord} (h : InRange row) :
    readCursor (some (cursorAt row).encode) = .ok (some (cursorAt row)) := by
  have hreadable : IsoFormat.Readable (cursorAt row).occurredAt := by
    refine ⟨⟨Int.le_trans (by decide) h.1, Int.lt_of_le_of_lt h.2 (by decide)⟩, ?_⟩
    intro offset hoffset
    cases hoffset
    exact ⟨by decide, .inl rfl⟩
  have hdecode : PageCursor.decode maxCursorLength (cursorAt row).encode = .ok (cursorAt row) :=
    CursorAux.decode_encode 255 hreadable
  unfold readCursor
  split
  · rename_i h0
    cases h0
  · rename_i h0
    exact absurd (Option.some.inj h0) (CursorAux.encode_length _).1
  · rename_i token _ h0
    rw [← Option.some.inj h0, hdecode]

/-- Rows of different ids have different sort keys. -/
theorem sortKeys_nodup (table : TransactionsTable) : (table.rows.map TransactionRecord.sortKey).Nodup := by
  have h := List.pairwise_map.mp table.unique
  refine List.pairwise_map.mpr (h.imp fun {a b} hab hkey => hab ?_)
  have hid := congrArg (fun k : SortKey => (ofLex k).2) hkey
  simp only [TransactionRecord.sortKey, ofLex_toLex] at hid
  exact congrArg Uuid.mk (BitVec.eq_of_toNat_eq hid)

/-! ### The invariant -/

/-- The request that a client makes at a boundary: none at the end, one without a cursor at the start, and else the token of a
cursor that stands at a row it has seen. -/
def Requests (s : PagingState) : Keyset.Boundary SortKey → Prop
  | .start => s.request = some none ∧ s.pages = []
  | .after key =>
    ∃ row ∈ s.seen, key = row.sortKey ∧ s.request = some (some (cursorAt row).encode) ∧ s.pages ≠ []
  | .finished => s.request = none ∧ s.pages ≠ []

/-- What holds between two requests. -/
structure Inv (naive : NaiveTimes) (filters : TransactionFilters) (s : PagingState) : Prop where
  before : ∀ row ∈ s.before, row ∈ s.table.rows
  walked : ∃ b, Requests s b ∧ Keyset.Walked TransactionRecord.sortKey (wanted naive filters) s.before s.table.rows s.seen b
  linked : ∀ init last, s.pages = init ++ [last] → s.request = last.nextCursor.map some ∧ ∀ page ∈ init, page.nextCursor ≠ none

/-- The page that a client at a boundary is given. -/
def pageAt (naive : NaiveTimes) (filters : TransactionFilters) (limit : ℤ) (s : PagingState) (b : Keyset.Boundary SortKey) :
    List TransactionRecord × Option TransactionRecord :=
  Keyset.page limit.toNat (Keyset.remaining TransactionRecord.sortKey (wanted naive filters) b s.table.rows)

/-- The state after it. -/
def afterPage (naive : NaiveTimes) (filters : TransactionFilters) (limit : ℤ) (s : PagingState) (b : Keyset.Boundary SortKey) :
    PagingState where
  table := s.table
  before := if s.pages = [] then s.table.rows else s.before
  pages := s.pages ++ [⟨(pageAt naive filters limit s b).1, limit, ((pageAt naive filters limit s b).2.map cursorAt).map PageCursor.encode⟩]
  request := (((pageAt naive filters limit s b).2.map cursorAt).map PageCursor.encode).map some

variable {limit : ℤ} {s s' : PagingState} {b : Keyset.Boundary SortKey}

/-- A client that has a request to make gets the page at its boundary, and one that has none makes none. -/
theorem fetch_eq (hlimit : 1 ≤ limit ∧ limit ≤ maxPageSize) (htaken : filters.Taken naive) (h : Inv naive filters s)
    (hb : Requests s b) :
    pagingStep naive filters limit s .fetch = if s.request = none then none else some (afterPage naive filters limit s b) := by
  unfold pagingStep
  cases b with
  | start =>
    simp only [hb.1]
    have hread : readCursor none = .ok ((none : Option TransactionRecord).map cursorAt) := rfl
    rw [listTransactionDecisions_eq hlimit htaken _ (by simp) hread (by simp)]
    rfl
  | after key =>
    obtain ⟨row, hrow, rfl, hrequest, -⟩ := hb
    obtain ⟨b', -, hwalked⟩ := h.walked
    have hrange : InRange row := s.table.inRange row (hwalked.listed row hrow).1
    have hread : readCursor (some (cursorAt row).encode) = .ok ((some row).map cursorAt) := readCursor_encode hrange
    simp only [hrequest]
    rw [listTransactionDecisions_eq hlimit htaken _ ?_ hread ?_]
    · rfl
    · intro r hr
      cases hr
      exact hrange
    · intro t ht
      cases ht
      exact (CursorAux.encode_length _).2.trans (by decide)
  | finished =>
    simp only [hb.1]
    rfl

theorem afterPage_seen (filters : TransactionFilters) (limit : ℤ) (s : PagingState) (b : Keyset.Boundary SortKey) :
    (afterPage naive filters limit s b).seen = s.seen ++ (pageAt naive filters limit s b).1 := by
  unfold PagingState.seen afterPage
  simp only [List.flatMap_append, List.flatMap_cons, List.flatMap_nil, List.append_nil]

/-- A page without a next one ends the walk. -/
theorem afterPage_request (filters : TransactionFilters) (limit : ℤ) (s : PagingState) (b : Keyset.Boundary SortKey) :
    (afterPage naive filters limit s b).request = none ↔ (pageAt naive filters limit s b).2 = none := by
  unfold afterPage
  simp only [Option.map_eq_none_iff]

/-- The boundary after a page. -/
theorem requests_afterPage (hlimit : 1 ≤ limit) (s : PagingState) (b : Keyset.Boundary SortKey) :
    Requests (afterPage naive filters limit s b) (.ofLast TransactionRecord.sortKey (pageAt naive filters limit s b).2) := by
  rcases Keyset.page_spec (show 0 < limit.toNat by omega)
      (Keyset.remaining TransactionRecord.sortKey (wanted naive filters) b s.table.rows) with ⟨hnone, -⟩ | ⟨last, _, hsome, hlast, -⟩
  · have hnone : (pageAt naive filters limit s b).2 = none := hnone
    rw [hnone]
    exact ⟨(afterPage_request filters limit s b).mpr hnone, by simp [afterPage]⟩
  · have hsome : (pageAt naive filters limit s b).2 = some last := hsome
    rw [hsome]
    refine ⟨last, ?_, rfl, ?_, by simp [afterPage]⟩
    · rw [afterPage_seen]
      exact List.mem_append_right _ (List.mem_of_getLast? hlast)
    · unfold afterPage
      rw [hsome]
      rfl

/-- A page takes the client to a new boundary. -/
theorem inv_afterPage (hlimit : 1 ≤ limit) (hpages : ∀ init last, s.pages = init ++ [last] → last.nextCursor ≠ none)
    (hlinked : ∀ init last, s.pages = init ++ [last] → ∀ page ∈ init, page.nextCursor ≠ none)
    (hbefore : ∀ row ∈ s.before, row ∈ s.table.rows) (hb : Requests s b)
    (hwalked : Keyset.Walked TransactionRecord.sortKey (wanted naive filters) s.before s.table.rows s.seen b) :
    Inv naive filters (afterPage naive filters limit s b) := by
  have hbefore' : ∀ row ∈ (afterPage naive filters limit s b).before, row ∈ s.table.rows := by
    intro row hrow
    unfold afterPage at hrow
    simp only at hrow
    split at hrow
    · exact hrow
    · exact hbefore row hrow
  -- at the first page the walk begins
  have hwalked' : Keyset.Walked TransactionRecord.sortKey (wanted naive filters) (afterPage naive filters limit s b).before s.table.rows
      s.seen b := by
    unfold afterPage
    simp only
    by_cases h0 : s.pages = []
    · rw [if_pos h0]
      cases b with
      | start =>
        have hnone : s.seen = [] := by
          unfold PagingState.seen
          rw [h0]
          rfl
        rw [hnone]
        exact .start
      | after key =>
        obtain ⟨_, -, -, -, hne⟩ := hb
        exact absurd h0 hne
      | finished => exact absurd h0 hb.2
    · rw [if_neg h0]
      exact hwalked
  have hpos : 0 < limit.toNat := by omega
  refine ⟨hbefore', ⟨_, requests_afterPage hlimit s b, ?_⟩, ?_⟩
  · rw [afterPage_seen]
    exact hwalked'.page (sortKeys_nodup s.table) hbefore' hpos
  · intro init last heq
    obtain ⟨rfl, rfl⟩ := List.append_singleton_inj.mp heq
    refine ⟨rfl, fun page hpage => ?_⟩
    obtain ⟨init', last', hsplit⟩ := List.eq_nil_or_concat s.pages |>.resolve_left (List.ne_nil_of_mem hpage)
    rw [List.concat_eq_append] at hsplit
    rw [hsplit] at hpage
    rcases List.mem_append.mp hpage with hpage | hpage
    · exact hlinked init' last' hsplit page hpage
    · rw [List.mem_singleton.mp hpage]
      exact hpages init' last' hsplit

/-- A client with a request to make has been given a cursor with its last page. -/
theorem Inv.lastLinked (h : Inv naive filters s) (hrequest : s.request ≠ none) :
    ∀ init last, s.pages = init ++ [last] → last.nextCursor ≠ none := by
  intro init last heq h0
  refine hrequest ?_
  rw [(h.linked init last heq).1, h0]
  rfl

theorem inv_start (h : (paging naive filters limit).start s) : Inv naive filters s := by
  obtain ⟨hbefore, hpages, hrequest⟩ := h
  have hseen : s.seen = [] := by
    unfold PagingState.seen
    rw [hpages]
    rfl
  refine ⟨?_, ⟨.start, ⟨hrequest, hpages⟩, ?_⟩, ?_⟩
  · rw [hbefore]
    exact fun row hrow => absurd hrow List.not_mem_nil
  · rw [hseen]
    exact .start
  · intro init last heq
    rw [hpages] at heq
    exact absurd heq.symm (by simp)

theorem inv_insert (h : Inv naive filters s) {row : TransactionRecord} (hrow : s.table.Takes row) :
    Inv naive filters ⟨s.table.insert row hrow, s.before, s.pages, s.request⟩ := by
  have hrows : ∀ r ∈ s.table.rows, r ∈ (s.table.insert row hrow).rows := fun r hr => List.mem_append_left _ hr
  obtain ⟨b, hb, hwalked⟩ := h.walked
  refine ⟨fun r hr => hrows r (h.before r hr), ⟨b, ?_, hwalked.insert hrows⟩, h.linked⟩
  cases b with
  | start => exact hb
  | after key => exact hb
  | finished => exact hb

/-- A fetch that happens is of the page at the client's boundary. -/
theorem fetch_some (hlimit : 1 ≤ limit ∧ limit ≤ maxPageSize) (htaken : filters.Taken naive) (h : Inv naive filters s)
    (hb : Requests s b)
    (hs : pagingStep naive filters limit s .fetch = some s') : s.request ≠ none ∧ s' = afterPage naive filters limit s b := by
  rw [fetch_eq hlimit htaken h hb] at hs
  split at hs
  · cases hs
  · rename_i hrequest
    cases hs
    exact ⟨hrequest, rfl⟩

theorem inv_step (hlimit : 1 ≤ limit ∧ limit ≤ maxPageSize) (htaken : filters.Taken naive) {e : PagingEvent} (h : Inv naive filters s)
    (hs : (paging naive filters limit).step s e = some s') : Inv naive filters s' := by
  cases e with
  | insert row =>
    simp only [paging, pagingStep] at hs
    split at hs
    · rename_i hrow
      cases hs
      exact inv_insert h hrow
    · cases hs
  | fetch =>
    obtain ⟨b, hb, hwalked⟩ := h.walked
    obtain ⟨hrequest, rfl⟩ := fetch_some hlimit htaken h hb hs
    exact inv_afterPage hlimit.1 (h.lastLinked hrequest) (fun init last heq => (h.linked init last heq).2) h.before hb hwalked

theorem inv_reachable (hlimit : 1 ≤ limit ∧ limit ≤ maxPageSize) (htaken : filters.Taken naive)
    (h : (paging naive filters limit).Reachable s) : Inv naive filters s :=
  h.invariant (fun _ hstart => inv_start hstart) fun _ _ _ hi hs => inv_step hlimit htaken hi hs

/-! ### The last page -/

/-- A page has no cursor exactly when no row that the filters admit is below everything seen. -/
theorem fetch_last_iff (hlimit : 1 ≤ limit ∧ limit ≤ maxPageSize) (htaken : filters.Taken naive) (h : Inv naive filters s)
    (hs : pagingStep naive filters limit s .fetch = some s') :
    s'.request = none ↔ ¬∃ row ∈ s'.table.rows, wanted naive filters row = true ∧ ∀ r ∈ s'.seen, row.sortKey < r.sortKey := by
  obtain ⟨b, hb, hwalked⟩ := h.walked
  obtain ⟨hrequest, rfl⟩ := fetch_some hlimit htaken h hb hs
  have hpos : 0 < limit.toNat := by omega
  rw [afterPage_request, afterPage_seen]
  rcases Keyset.page_spec hpos (Keyset.remaining TransactionRecord.sortKey (wanted naive filters) b s.table.rows) with
    ⟨h2, h1, -⟩ | ⟨last, rest, h2, hlast, hrest, hne, -⟩
  · -- everything that remained is on the page
    refine ⟨fun _ => ?_, fun _ => h2⟩
    rintro ⟨row, hrow, hadmits, hbelow⟩
    have hnot : ¬b.Passed row.sortKey := by
      intro hpassed
      cases b with
      | start => exact hpassed
      | after key =>
        obtain ⟨r, hr, rfl, -⟩ := hb
        exact absurd (lt_of_lt_of_le (hbelow r (List.mem_append_left _ hr)) hpassed) (lt_irrefl _)
      | finished => exact hrequest hb.1
    have hmem : row ∈ (pageAt naive filters limit s b).1 := by
      unfold pageAt
      rw [h1]
      exact Keyset.mem_remaining.mpr ⟨hrow, hadmits, hnot⟩
    exact absurd (hbelow row (List.mem_append_right _ hmem)) (lt_irrefl _)
  · -- a row that the page leaves is below it, and below what was seen before it
    have h2 : (pageAt naive filters limit s b).2 = some last := h2
    refine ⟨fun h0 => ?_, fun hno => ?_⟩
    · rw [h2] at h0
      cases h0
    · exfalso
      obtain ⟨row, rest', rfl⟩ := List.exists_cons_of_ne_nil hne
      have hrow : row ∈ Keyset.remaining TransactionRecord.sortKey (wanted naive filters) b s.table.rows := by
        rw [hrest]
        exact List.mem_append_right _ List.mem_cons_self
      obtain ⟨hin, hadmits, hnot⟩ := Keyset.mem_remaining.mp hrow
      refine hno ⟨row, hin, hadmits, fun r hr => ?_⟩
      rcases List.mem_append.mp hr with hr | hr
      · exact Keyset.Boundary.lt_of_passed (hwalked.passed r hr) hnot
      · have hdesc : (Keyset.remaining TransactionRecord.sortKey (wanted naive filters) b s.table.rows).Pairwise fun x y =>
            y.sortKey < x.sortKey := Keyset.remaining_descending (sortKeys_nodup s.table)
        rw [hrest] at hdesc
        exact (List.pairwise_append.mp hdesc).2.2 r hr row List.mem_cons_self

/-! ### The end of a walk -/

/-- Fetches alone end a walk: each but the last leaves fewer rows. -/
theorem fetches_end (hlimit : 1 ≤ limit ∧ limit ≤ maxPageSize) (htaken : filters.Taken naive) {n : ℕ} :
    ∀ {s : PagingState} {b : Keyset.Boundary SortKey}, Inv naive filters s → Requests s b → s.request ≠ none →
      (Keyset.remaining TransactionRecord.sortKey (wanted naive filters) b s.table.rows).length < n →
      ∃ m ≤ n, ∃ s', (paging naive filters limit).run s (List.replicate m .fetch) = some s' ∧ s'.request = none := by
  induction n with
  | zero =>
    intro s b _ _ _ hlt
    exact absurd hlt (Nat.not_lt_zero _)
  | succ n ih =>
    intro s b h hb hrequest hlt
    have hstep : (paging naive filters limit).step s .fetch = some (afterPage naive filters limit s b) := by
      have := fetch_eq hlimit htaken h hb
      rwa [if_neg hrequest] at this
    cases hnext : (pageAt naive filters limit s b).2 with
    | none =>
      refine ⟨1, by omega, afterPage naive filters limit s b, ?_, (afterPage_request filters limit s b).mpr hnext⟩
      rw [List.replicate_one, StepSystem.run, hstep]
      rfl
    | some last =>
      have hless := Keyset.remaining_lt (show 0 < limit.toNat by omega) hnext
      have hb' : Requests (afterPage naive filters limit s b) (.ofLast TransactionRecord.sortKey (pageAt naive filters limit s b).2) :=
        requests_afterPage hlimit.1 s b
      rw [hnext] at hb'
      have hrequest' : (afterPage naive filters limit s b).request ≠ none := by
        rw [Ne, afterPage_request, hnext]
        exact Option.some_ne_none last
      obtain ⟨m, hm, s', hrun, hend⟩ :=
        ih (inv_step hlimit htaken h hstep) hb' hrequest' (Nat.lt_of_lt_of_le hless (Nat.le_of_lt_succ hlt))
      refine ⟨m + 1, by omega, s', ?_, hend⟩
      rw [List.replicate_succ, StepSystem.run, hstep]
      exact hrun

/-- A walk that has not begun, over no rows. -/
def unbegun : PagingState where
  table := ⟨[], List.nodup_nil, by simp⟩
  before := []
  pages := []
  request := some none

/-- When the database refuses a filter, so does the endpoint, with status 500. -/
theorem listTransactionDecisions_refused (hlimit : 1 ≤ limit ∧ limit ≤ maxPageSize) (h : ¬filters.Taken naive)
    (rows : List TransactionRecord) :
    listTransactionDecisions naive rows filters limit none = .error ⟨500, "An internal error occurred."⟩ := by
  have hvalid := @parameters_ok limit hlimit none (by simp)
  unfold listTransactionDecisions
  rw [if_neg hvalid]
  simp only [readCursor, Except.ok_bind, listTransactions_refused hlimit h]

/-- If every walk is complete, the database takes the filters: a walk must be able to begin. -/
theorem taken_of_complete (hlimit : 1 ≤ limit ∧ limit ≤ maxPageSize)
    (h : ∀ s, (paging naive filters limit).Reachable s → WalkComplete naive filters limit s) : filters.Taken naive := by
  by_contra htaken
  have hstuck : (paging naive filters limit).step unbegun .fetch = none := by
    unfold paging pagingStep
    simp only [show unbegun.request = some none from rfl, listTransactionDecisions_refused hlimit htaken]
  have hstart : (paging naive filters limit).Reachable unbegun := .start ⟨rfl, rfl, rfl⟩
  obtain ⟨n, -, s', hrun, hend⟩ := (h _ hstart).ends (Option.some_ne_none _)
  cases n with
  | zero =>
    cases hrun
    cases hend
  | succ n =>
    rw [List.replicate_succ, StepSystem.run, hstuck] at hrun
    cases hrun

end PagingAux

/-- For all filters and every limit: whatever decisions are inserted between its pages, every walk is complete, from any table on,
exactly when the database takes the filters. -/
theorem paging_complete_iff (naive : NaiveTimes) (filters : TransactionFilters) (limit : ℤ)
    (hlimit : 1 ≤ limit ∧ limit ≤ maxPageSize) :
    (∀ s, (paging naive filters limit).Reachable s → WalkComplete naive filters limit s) ↔ filters.Taken naive := by
  constructor
  · intro h
    exact PagingAux.taken_of_complete hlimit h
  · intro htaken s h
    have hinv := PagingAux.inv_reachable hlimit htaken h
    obtain ⟨b, hb, hwalked⟩ := hinv.walked
    have hlisted : ∀ row ∈ s.seen, row ∈ s.table.rows ∧ filters.Satisfied naive row := fun row hrow =>
      ⟨(hwalked.listed row hrow).1, PagingAux.wanted_iff.mp (hwalked.listed row hrow).2⟩
    refine ⟨hwalked.descending, ?_, hlisted, ?_, hinv.linked, ?_, ?_⟩
    · refine List.pairwise_map.mpr (hwalked.descending.imp_of_mem fun {row next} hrow hnext hlt hid => ?_)
      -- rows of one id are one row
      have hsame : row = next := List.inj_on_of_nodup_map s.table.unique (hlisted row hrow).1 (hlisted next hnext).1 hid
      rw [hsame] at hlt
      exact lt_irrefl _ hlt
    · intro hend row hrow hsatisfied
      have hpassed : b.Passed row.sortKey := by
        cases b with
        | start =>
          rw [hb.1] at hend
          cases hend
        | after key =>
          obtain ⟨_, -, -, hrequest, -⟩ := hb
          rw [hrequest] at hend
          cases hend
        | finished => trivial
      exact hwalked.complete row hrow (PagingAux.wanted_iff.mpr hsatisfied) hpassed
    · intro s' hs
      simpa only [PagingAux.wanted_iff] using PagingAux.fetch_last_iff hlimit htaken hinv hs
    · intro hrequest
      refine PagingAux.fetches_end hlimit htaken hinv hb hrequest ?_
      have hle : (Keyset.remaining TransactionRecord.sortKey (PagingAux.wanted naive filters) b s.table.rows).length ≤
          s.table.rows.length := by
        unfold Keyset.remaining
        rw [List.length_mergeSort]
        exact List.length_filter_le _ _
      omega

namespace PagingExample

/-- A decision on a transaction at a time. -/
def row (transactionId : BitVec 128) (occurredAt : Timestamp) : TransactionRecord :=
  transactionRecord { DecisionsExample.decision "ZAR" 0 with transactionId := ⟨transactionId⟩, occurredAt := occurredAt } 5

/-- The driver runs in UTC. -/
def localTimes : NaiveTimes := some

/-- The approved groceries of a user in the first second of the epoch. -/
def firstSecond : TransactionFilters where
  userId := some ⟨1⟩
  category := some "GROCERIES"
  isFraud := some false
  verdict := some .approved
  occurredFrom := some ⟨0, none⟩
  occurredTo := some ⟨3601000000, some 3600000000⟩

theorem firstSecond_taken : firstSecond.Taken localTimes := by
  constructor
  · rintro bound (hbound | hbound)
    · cases hbound
      exact ⟨0, rfl, by decide, by decide⟩
    · cases hbound
      exact ⟨1000000, rfl, by decide, by decide⟩
  · intro category hcategory
    cases hcategory
    decide

/-- Decisions in that second, at its end and before it. -/
def start : PagingState where
  table := ⟨[row 9 0, row 6 1000000, row 8 0, row 5 (-1), row 7 0], by decide, by decide⟩
  before := []
  pages := []
  request := some none

theorem start_reachable : (paging localTimes firstSecond 2).Reachable start := .start ⟨rfl, rfl, rfl⟩

/-- Between two pages, decisions are inserted above and below the cursor. -/
def walk : List PagingEvent := [.fetch, .insert (row 10 0), .insert (row 3 0), .fetch]

/-- The table after them. -/
def grown : TransactionsTable := (start.table.insert (row 10 0) (by decide)).insert (row 3 0) (by decide)

theorem first_page : PagingAux.pageAt localTimes firstSecond 2 start .start = ([row 9 0, row 8 0], some (row 8 0)) := by
  unfold PagingAux.pageAt Keyset.remaining
  rw [List.mergeSort_of_pairwise (by decide)]
  decide

theorem second_page {s : PagingState} (h : s.table = grown) :
    PagingAux.pageAt localTimes firstSecond 2 s (.after (row 8 0).sortKey) = ([row 7 0, row 3 0], none) := by
  unfold PagingAux.pageAt Keyset.remaining
  rw [h, List.mergeSort_of_pairwise (by decide)]
  decide

/-- The walk is given all the decisions of the second but the one above its cursor. -/
theorem walk_runs : ∃ s, (paging localTimes firstSecond 2).run start walk = some s ∧ s.request = none ∧
    s.seen = [row 9 0, row 8 0, row 7 0, row 3 0] := by
  have hlimit : (1 : ℤ) ≤ 2 ∧ (2 : ℤ) ≤ maxPageSize := by decide
  have hinv : PagingAux.Inv localTimes firstSecond start := @PagingAux.inv_start localTimes firstSecond 2 start ⟨rfl, rfl, rfl⟩
  -- the first page
  set first := PagingAux.afterPage localTimes firstSecond 2 start .start with hfirst
  have hfetch : (paging localTimes firstSecond 2).step start .fetch = some first :=
    PagingAux.fetch_eq hlimit firstSecond_taken hinv ⟨rfl, rfl⟩
  have hinv' : PagingAux.Inv localTimes firstSecond first := PagingAux.inv_step hlimit firstSecond_taken hinv hfetch
  have hrequests : PagingAux.Requests first (.after (row 8 0).sortKey) := by
    have h : PagingAux.Requests first
        (.ofLast TransactionRecord.sortKey (PagingAux.pageAt localTimes firstSecond 2 start .start).2) :=
      PagingAux.requests_afterPage hlimit.1 start .start
    rwa [first_page] at h
  -- the inserts
  set between : PagingState := ⟨grown, first.before, first.pages, first.request⟩ with hbetween
  have hinv'' : PagingAux.Inv localTimes firstSecond between := PagingAux.inv_insert (PagingAux.inv_insert hinv' (by decide)) (by decide)
  -- the last page
  set last := PagingAux.afterPage localTimes firstSecond 2 between (.after (row 8 0).sortKey)
  have hgoes : between.request ≠ none := by
    obtain ⟨_, -, -, hrequest, -⟩ := hrequests
    rw [show between.request = first.request from rfl, hrequest]
    exact Option.some_ne_none _
  have hstands : PagingAux.Requests between (.after (row 8 0).sortKey) := hrequests
  have hlast : (paging localTimes firstSecond 2).step between .fetch = some last := by
    have h := PagingAux.fetch_eq hlimit firstSecond_taken hinv'' hstands
    rwa [if_neg hgoes] at h
  have hpage : PagingAux.pageAt localTimes firstSecond 2 between (.after (row 8 0).sortKey) = ([row 7 0, row 3 0], none) :=
    second_page rfl
  refine ⟨last, ?_, (PagingAux.afterPage_request ..).mpr (by rw [hpage]), ?_⟩
  · have hrest : (paging localTimes firstSecond 2).run between [.fetch] = some last := by
      rw [StepSystem.run, hlast]
      rfl
    rw [walk, StepSystem.run, hfetch, Option.bind_some]
    exact hrest
  · rw [PagingAux.afterPage_seen, hpage]
    have hseen : between.seen = [row 9 0, row 8 0] := by
      have h : first.seen = _ := PagingAux.afterPage_seen firstSecond 2 start .start
      rwa [first_page] at h
    rw [hseen]
    rfl

/-- Filters whose first time is `0001-01-01T00:00:00+23:59`. -/
def yearZero : TransactionFilters where
  userId := none
  category := none
  isFraud := none
  verdict := none
  occurredFrom := some ⟨datetimeMin, some 86340000000⟩
  occurredTo := none

theorem yearZero_refused : ¬yearZero.Taken localTimes := by
  intro h
  obtain ⟨t, ht, hmin, -⟩ := h.times _ (.inl rfl)
  cases ht
  exact absurd hmin (by decide)

end PagingExample

open PagingExample in
/-- A walk over decisions of one time, with inserts between its pages. -/
theorem paging_complete_iff_walked :
    ∃ s, (paging localTimes firstSecond 2).run start walk = some s ∧ s.request = none ∧
      s.seen = [row 9 0, row 8 0, row 7 0, row 3 0] ∧ WalkComplete localTimes firstSecond 2 s := by
  obtain ⟨s, hrun, hend, hseen⟩ := walk_runs
  exact ⟨s, hrun, hend, hseen,
    (paging_complete_iff localTimes firstSecond 2 (by decide)).mpr firstSecond_taken s (start_reachable.run hrun)⟩

open PagingExample in
/-- Filters that begin in the year 0 of UTC list nothing: every request ends with status 500. -/
theorem paging_complete_false :
    (∀ rows, listTransactionDecisions localTimes rows yearZero 50 none = .error ⟨500, "An internal error occurred."⟩) ∧
      ¬∀ s, (paging localTimes yearZero 50).Reachable s → WalkComplete localTimes yearZero 50 s :=
  ⟨fun rows => PagingAux.listTransactionDecisions_refused (by decide) yearZero_refused rows,
    fun h => yearZero_refused (PagingAux.taken_of_complete (by decide) h)⟩

end FraudDetection
