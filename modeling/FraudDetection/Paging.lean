import FraudDetection.Cursor
import FraudDetection.Decisions
import FraudDetection.Lib.Keyset
import FraudDetection.Lib.StepSystem
import Mathlib.Data.Prod.Lex

/-!
# Listing decisions

`list_transactions`, which returns a page of rows and the position of the next one, and the endpoint that reads and writes the
position as a token. A client walks the pages while decisions are inserted, so a walk is a system in which a page and an insert are
steps.
-/

namespace FraudDetection

/-! ## `list_transactions` -/

/-- `TransactionFilters`: `none` means any. -/
structure TransactionFilters where
  userId : Option Uuid
  category : Option String
  isFraud : Option Bool
  verdict : Option Verdict
  occurredFrom : Option Datetime
  occurredTo : Option Datetime
  deriving DecidableEq, Repr

/-- The `WHERE` clauses of the filters, with the two times as they are sent. -/
def TransactionFilters.admits (filters : TransactionFilters) (occurredFrom occurredTo : Option Timestamp)
    (row : TransactionRecord) : Bool :=
  filters.userId.all (fun userId => decide (row.userId = userId)) &&
    filters.category.all (fun category => decide (row.category = category)) &&
    filters.isFraud.all (fun isFraud => decide (row.isFraud = isFraud)) &&
    filters.verdict.all (fun verdict => decide (row.verdict = verdict)) &&
    occurredFrom.all (fun start => decide (start ≤ row.occurredAt)) &&
    occurredTo.all (fun stop => decide (row.occurredAt < stop))

/-- A sort key: by time, then by id, which compares as a number. -/
abbrev SortKey := ℤ ×ₗ ℕ

/-- `(occurred_at, transaction_id)`. -/
def TransactionRecord.sortKey (row : TransactionRecord) : SortKey := toLex (row.occurredAt, row.transactionId.value.toNat)

/-- What the driver takes a `datetime` without an offset for, if it takes one. -/
abbrev NaiveTimes := ℤ → Option Timestamp

/-- The point in time of a `datetime`. -/
def instantOf (naive : NaiveTimes) (value : Datetime) : Option Timestamp :=
  match value.offset with
  | some offset => some (value.wall - offset)
  | none => naive value.wall

/-- A `timestamptz` parameter, as the driver sends it, in UTC: `none` when it refuses it, as it does one that is out of range there. -/
def timestamptz (naive : NaiveTimes) (value : Datetime) : Option Timestamp := (instantOf naive value).bind datetimeOf

/-- A text parameter, as the driver sends it: `none` when PostgreSQL refuses it, as it does one with U+0000. -/
def textParameter (s : String) : Option String := if Jsonb.storable s then some s else none

/-- `tuple_(literal(cursor.occurred_at), literal(cursor.transaction_id))`. -/
def PageCursor.sortKey (naive : NaiveTimes) (cursor : PageCursor) : Option SortKey :=
  (timestamptz naive cursor.occurredAt).map fun occurredAt => toLex (occurredAt, cursor.transactionId.value.toNat)

/-- The time of a row, which the driver returns in UTC. -/
def utc (occurredAt : Timestamp) : Datetime := ⟨occurredAt, some 0⟩

/-- `MAX_PAGE_SIZE`. -/
def maxPageSize : ℕ := 100

/-- The message of `_check_page_size`, if it raises `ValueError`. -/
def checkPageSize (limit : ℤ) : Option String :=
  if 1 ≤ limit ∧ limit ≤ maxPageSize then none
  else some ("limit must be an integer from 1 to " ++ toString maxPageSize ++ ", got " ++ toString limit)

/-- What leaves `list_transactions`. -/
inductive ListError where
  | valueError (message : String)
  /-- The driver or PostgreSQL refuses a parameter. -/
  | dataError
  deriving DecidableEq, Repr

/-- `list_transactions`: a page, newest first, and the cursor of the next one. -/
def listTransactions (naive : NaiveTimes) (rows : List TransactionRecord) (filters : TransactionFilters) (limit : ℤ)
    (cursor : Option PageCursor) : Except ListError (List TransactionRecord × Option PageCursor) :=
  match checkPageSize limit with
  | some message => .error (.valueError message)
  | none =>
    match filters.category.mapM textParameter, filters.occurredFrom.mapM (timestamptz naive),
      filters.occurredTo.mapM (timestamptz naive), cursor.mapM (PageCursor.sortKey naive) with
    | some _, some occurredFrom, some occurredTo, some after =>
      let selected := rows.filter fun row =>
        filters.admits occurredFrom occurredTo row && after.all fun key => decide (row.sortKey < key)
      -- one more row than the page holds tells whether there is a next page
      let found := (selected.mergeSort fun left right => decide (right.sortKey ≤ left.sortKey)).take (limit.toNat + 1)
      if limit.toNat < found.length then
        let page := found.take limit.toNat
        .ok (page, page.getLast?.map fun last => ⟨utc last.occurredAt, last.transactionId⟩)
      else .ok (found, none)
    | _, _, _, _ => .error .dataError

/-! ## The endpoint -/

/-- A response that is not a page: its status and its detail. -/
structure HttpError where
  status : ℕ
  detail : String
  deriving DecidableEq, Repr

/-- `TransactionPage`. -/
structure TransactionPage where
  data : List TransactionRecord
  limit : ℤ
  nextCursor : Option PyStr
  deriving DecidableEq, Repr

/-- The longest `cursor` the endpoint takes. -/
def maxCursorLength : ℕ := 256

/-- `PageCursor.decode(cursor) if cursor else None`, and its `except ValueError`. No token that the endpoint takes is nested deeper
than it is long, which is far below the recursion limit. -/
def readCursor : Option PyStr → Except HttpError (Option PageCursor)
  | none | some [] => .ok none
  | some token =>
    match PageCursor.decode maxCursorLength token with
    | .ok cursor => .ok (some cursor)
    | .error .valueError => .error ⟨400, "cursor is malformed or from a different query."⟩
    | .error _ => .error ⟨500, "An internal error occurred."⟩

/-- `list_transaction_decisions`, for a request whose filters are valid. -/
def listTransactionDecisions (naive : NaiveTimes) (rows : List TransactionRecord) (filters : TransactionFilters) (limit : ℤ)
    (cursor : Option PyStr) : Except HttpError TransactionPage :=
  if limit < 1 ∨ maxPageSize < limit ∨ cursor.any (fun token => decide (maxCursorLength < token.length)) then
    .error ⟨422, "Request validation failed."⟩
  else do
    let pageCursor ← readCursor cursor
    match listTransactions naive rows filters limit pageCursor with
    | .error _ => .error ⟨500, "An internal error occurred."⟩
    | .ok (data, next) => return ⟨data, limit, next.map PageCursor.encode⟩

/-! ## A walk over the pages -/

/-- The committed rows of `transactions`: one for each id, at times that a `datetime` can hold. -/
structure TransactionsTable where
  rows : List TransactionRecord
  unique : (rows.map (·.transactionId)).Nodup
  inRange : ∀ row ∈ rows, datetimeMin ≤ row.occurredAt ∧ row.occurredAt ≤ datetimeMax

namespace TransactionsTable

/-- A row can be added. -/
def Takes (table : TransactionsTable) (row : TransactionRecord) : Prop :=
  (∀ r ∈ table.rows, r.transactionId ≠ row.transactionId) ∧ datetimeMin ≤ row.occurredAt ∧ row.occurredAt ≤ datetimeMax

instance (table : TransactionsTable) (row : TransactionRecord) : Decidable (table.Takes row) :=
  inferInstanceAs (Decidable (_ ∧ _))

/-- The decision of a new transaction is committed. -/
def insert (table : TransactionsTable) (row : TransactionRecord) (h : table.Takes row) : TransactionsTable where
  rows := table.rows ++ [row]
  unique := by
    rw [List.map_append, List.nodup_append]
    refine ⟨table.unique, List.nodup_singleton _, fun k hk k' hk' => ?_⟩
    obtain ⟨r, hr, rfl⟩ := List.mem_map.mp hk
    rw [List.mem_singleton.mp hk']
    exact h.1 r hr
  inRange := by
    intro r hr
    rcases List.mem_append.mp hr with hr | hr
    · exact table.inRange r hr
    · rw [List.mem_singleton.mp hr]
      exact h.2

end TransactionsTable

/-- A client between two requests. -/
structure PagingState where
  table : TransactionsTable
  /-- The rows at the first request. The client does not see them. -/
  before : List TransactionRecord
  pages : List TransactionPage
  /-- The `cursor` of the next request, if there is one. -/
  request : Option (Option PyStr)

/-- What can happen during a walk. -/
inductive PagingEvent where
  | insert (row : TransactionRecord)
  | fetch

/-- Every row of the pages so far, in the order of the pages. -/
def PagingState.seen (s : PagingState) : List TransactionRecord := s.pages.flatMap (·.data)

/-- A step of a walk. A client that is given a cursor asks for the next page, and one that is given none has ended. -/
def pagingStep (naive : NaiveTimes) (filters : TransactionFilters) (limit : ℤ) (s : PagingState) : PagingEvent → Option PagingState
  | .insert row => if h : s.table.Takes row then some ⟨s.table.insert row h, s.before, s.pages, s.request⟩ else none
  | .fetch =>
    match s.request with
    | none => none
    | some cursor =>
      match listTransactionDecisions naive s.table.rows filters limit cursor with
      | .error _ => none
      | .ok page =>
        some ⟨s.table, if s.pages = [] then s.table.rows else s.before, s.pages ++ [page], page.nextCursor.map some⟩

/-- Walks over the pages of a query, from any table. -/
def paging (naive : NaiveTimes) (filters : TransactionFilters) (limit : ℤ) : StepSystem PagingState PagingEvent where
  start s := s.before = [] ∧ s.pages = [] ∧ s.request = some none
  step := pagingStep naive filters limit

end FraudDetection
