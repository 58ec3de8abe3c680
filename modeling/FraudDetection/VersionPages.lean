import FraudDetection.Paging
import FraudDetection.Versions

/-!
# Listing versions

`list_rule_set_versions` and the endpoint that lists the versions of a rule set, newest first. A page has no row to look ahead to: a
full page is taken for a sign that there may be more. A client walks the pages while versions are published, so a walk is a system in
which a page and a statement of any call of `create_rule_set_version` are steps.
-/

namespace FraudDetection

/-! ## `list_rule_set_versions` -/

/-- What leaves `list_rule_set_versions`. -/
inductive ListVersionsError where
  | valueError (message : String)
  /-- A row does not load. -/
  | load (error : LoadError)
  deriving DecidableEq, Repr

/-- `list_rule_set_versions`: up to `limit` versions, newest first. -/
def listRuleSetVersions (sha : Sha256) (py : Interpreter) (rows : List RuleSetVersionRecord) (key : String) (limit : ℤ)
    (beforeVersion : Option ℤ) : Except ListVersionsError (List RuleSet) :=
  match checkPageSize limit with
  | some message => .error (.valueError message)
  | none =>
    if ∃ before ∈ beforeVersion, before < 1 then
      .error (.valueError ("before_version must be at least 1, got " ++ toString (beforeVersion.getD 0)))
    else
      let ofKey := rows.filter (·.ruleSetKey = key)
      let selected := ofKey.filter fun record => beforeVersion.all fun before => decide ((record.version : ℤ) < before)
      let records := (selected.mergeSort fun left right => decide (right.version ≤ left.version)).take limit.toNat
      (records.mapM (ruleSetFromRecord sha py)).mapError .load

/-! ## The endpoint -/

/-- `RuleSetVersionPage`. -/
structure RuleSetVersionPage where
  data : List RuleSet
  limit : ℤ
  nextBeforeVersion : Option ℕ

/-- The version to go on from: that of the last row of a full page, unless nothing can precede it. -/
def nextBeforeVersion (versions : List RuleSet) (limit : ℤ) : Option ℕ :=
  match versions.getLast? with
  | none => none
  | some last => if versions.length = limit ∧ 1 < last.version then some last.version else none

/-- `list_versions`, for a valid key. -/
def listVersions (sha : Sha256) (py : Interpreter) (rows : List RuleSetVersionRecord) (key : String) (limit : ℤ)
    (beforeVersion : Option ℤ) : Except HttpError RuleSetVersionPage :=
  if limit < 1 ∨ maxPageSize < limit ∨ ∃ before ∈ beforeVersion, before < 2 then .error ⟨422, "Request validation failed."⟩
  else
    match listRuleSetVersions sha py rows key limit beforeVersion with
    | .error (.valueError _) => .error ⟨500, "An internal error occurred."⟩
    | .error (.load error) => .error ⟨500, error.message.getD "An internal error occurred."⟩
    | .ok versions =>
      if versions.isEmpty ∧ beforeVersion = none then .error ⟨404, "No rule set exists for key '" ++ key ++ "'"⟩
      else .ok ⟨versions, limit, nextBeforeVersion versions limit⟩

/-! ## A walk over the pages -/

/-- The calls that publish versions, and a client between two requests. -/
structure VersionWalkState where
  publishes : VersionsState
  /-- The rows at the first request, once it was made. The client does not see them. -/
  first : Option (List RuleSetVersionRecord)
  pages : List RuleSetVersionPage
  /-- A response that was no page. It ends the walk. -/
  failure : Option HttpError
  /-- The `before_version` of the next request, if there is one. -/
  request : Option (Option ℕ)

/-- What can happen during a walk. -/
inductive VersionWalkEvent where
  | publish (event : CreateEvent)
  | fetch

namespace VersionWalkState

/-- The rows at the first request, or the rows now when it is still to come. -/
def firstRows (s : VersionWalkState) : List RuleSetVersionRecord := s.first.getD s.publishes.rows

/-- Every rule set of the pages so far, in the order of the pages. -/
def seen (s : VersionWalkState) : List RuleSet := s.pages.flatMap (·.data)

end VersionWalkState

/-- A step of a walk. A client that is given a `next_before_version` asks for the next page, and one that is given none has
ended. -/
def versionWalkStep (sha : Sha256) (py : Interpreter) (calls : ℕ → CreateCall) (key : String) (limit : ℤ) (s : VersionWalkState) :
    VersionWalkEvent → Option VersionWalkState
  | .publish event => (createStep sha py calls s.publishes event).map fun publishes => { s with publishes }
  | .fetch =>
    match s.request with
    | none => none
    | some before =>
      match listVersions sha py s.publishes.rows key limit (before.map Int.ofNat) with
      | .error failure => some ⟨s.publishes, some s.firstRows, s.pages, some failure, none⟩
      | .ok page => some ⟨s.publishes, some s.firstRows, s.pages ++ [page], none, page.nextBeforeVersion.map some⟩

/-- Walks over the versions of a key, while versions of it and of other keys are published. -/
def versionWalk (sha : Sha256) (py : Interpreter) (calls : ℕ → CreateCall) (key : String) (limit : ℤ) :
    StepSystem VersionWalkState VersionWalkEvent where
  start s := (versions sha py calls).start s.publishes ∧ s.first = none ∧ s.pages = [] ∧ s.failure = none ∧ s.request = some none
  step := versionWalkStep sha py calls key limit

end FraudDetection
