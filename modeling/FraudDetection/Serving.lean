import FraudDetection.Api

/-!
# Requests at once

Any number of requests, beside the worker that records decisions. A request that reads runs one statement, an evaluation two, and a
publish those of `create_rule_set_version`; each sees the rows that are committed by then.
-/

namespace FraudDetection

/-- Where a request is. -/
inductive RequestPhase where
  | absent
  /-- Its statement has not run. -/
  | reading (action : Action)
  /-- An evaluation that has its rule set, before the velocity query. -/
  | scoring (ruleSet : RuleSet) (request : EvaluateRequest)
  /-- In `create_rule_set_version`. -/
  | publishing (call : CreateCall)
  | responded (response : ApiResponse)

/-- The tables with the calls that write them, and the requests. -/
structure ServiceState where
  versions : VersionsState
  decisions : DecisionsState
  requests : ℕ → RequestPhase

namespace ServiceState

/-- The rows of `rule_set_versions`. -/
def rows (s : ServiceState) : List RuleSetVersionRecord := s.versions.rows

/-- The rows of `transactions`. -/
def records (s : ServiceState) : List TransactionRecord := s.decisions.transactions.rows.map (·.record)

/-- A request goes on. -/
def setRequest (s : ServiceState) (i : ℕ) (phase : RequestPhase) : ServiceState :=
  { s with requests := Function.update s.requests i phase }

end ServiceState

/-- What happens. -/
inductive ServiceEvent where
  | record (event : RecordEvent)
  /-- A request is admitted, or refused. -/
  | receive (request : ℕ)
  /-- A statement of a publish, or its outcome. -/
  | publish (event : CreateEvent)
  /-- The statement of a request. -/
  | select (request : ℕ)
  /-- The database fails the statement of a request. -/
  | fail (request : ℕ) (raised : PyException)
  /-- The pings of `/ready` end. -/
  | pinged (request : ℕ) (database redis : Bool)
  /-- `create_rule_set_version` has ended, and if the database failed it, with this. -/
  | answer (request : ℕ) (raised : PyException)

/-- The call a step is of. -/
def CreateEvent.call : CreateEvent → ℕ
  | .select i | .flush i _ | .commit i _ | .reload i | .fail i => i

section

variable (sha : Sha256) (py : Interpreter) (reader : EventReader) (settings : ScopeSettings) (naive : NaiveTimes)

/-- Where a request is after it was admitted or refused. -/
def RequestPhase.ofAdmission (request : HttpRequest) : RequestPhase :=
  match request.accept sha py reader settings with
  | .error exc => .responded (request.respond (.error exc))
  | .ok (.redirect location) => .responded (request.respond (.ok (redirectResponse location)))
  | .ok .live => .responded (request.respond (.ok (okResponse .live)))
  | .ok .metrics => .responded (request.respond (.ok (okResponse .metrics)))
  | .ok (.createVersion call) => .publishing call
  | .ok action => .reading action

/-- What the statement of a request leads to; an evaluation that has its rule set goes on to the next one. -/
def ServiceState.select (s : ServiceState) (request : HttpRequest) : Action → Option RequestPhase
  | .getTransaction transactionId => some (.responded (request.respond (Api.getTransactionById s.records transactionId)))
  | .listTransactions filters limit cursor =>
    some (.responded (request.respond (Api.listTransactionDecisions naive s.records filters limit cursor)))
  | .listVersions key limit beforeVersion =>
    some (.responded (request.respond (Api.listVersions sha py s.rows key limit beforeVersion)))
  | .getActiveVersion key => some (.responded (request.respond (Api.getActiveVersion sha py s.rows key)))
  | .getVersion key version => some (.responded (request.respond (Api.getVersion sha py s.rows key version)))
  | .evaluate key body =>
    match Api.latestRuleSet sha py s.rows key with
    | .error exc => some (.responded (request.respond (.error exc)))
    | .ok ruleSet => some (.scoring ruleSet body)
  | _ => none

/-- What a step does. `data` gives the transaction at every Kafka position, and `requests` every request. -/
def serviceStep (data : Position → TransactionData) (requests : ℕ → HttpRequest) (s : ServiceState) :
    ServiceEvent → Option ServiceState
  | .record event => (recordStep data s.decisions event).map fun decisions => { s with decisions }
  | .receive i =>
    match s.requests i with
    | .absent => some (s.setRequest i (.ofAdmission sha py reader settings (requests i)))
    | _ => none
  | .publish event =>
    match s.requests event.call with
    | .publishing call => (createStep sha py (fun _ => call) s.versions event).map fun versions => { s with versions }
    | _ => none
  | .select i =>
    match s.requests i with
    | .reading action => (s.select sha py naive (requests i) action).map (s.setRequest i)
    | .scoring ruleSet body =>
      some (s.setRequest i (.responded ((requests i).respond (Api.scored s.records ruleSet (requests i).now body))))
    | _ => none
  | .fail i raised =>
    match s.requests i with
    | .reading _ | .scoring _ _ => some (s.setRequest i (.responded ((requests i).respond (.error (.other raised)))))
    | _ => none
  | .pinged i database redis =>
    match s.requests i with
    | .reading .ready => some (s.setRequest i (.responded ((requests i).respond (Api.ready database redis))))
    | _ => none
  | .answer i raised =>
    match s.requests i with
    | .publishing call =>
      (Api.createVersion call.key raised (s.versions.phase i)).map fun result =>
        s.setRequest i (.responded ((requests i).respond result))
    | _ => none

/-- The API and the worker, on versions without gaps that their column can hold, and with the decisions still to come. -/
def service (data : Position → TransactionData) (requests : ℕ → HttpRequest) : StepSystem ServiceState ServiceEvent where
  start s := (∀ calls, (versions sha py calls).start s.versions) ∧ (∀ row ∈ s.rows, (row.version : ℤ) ≤ Api.maxInteger) ∧
    s.decisions = .empty ∧ ∀ i, s.requests i = .absent
  step := serviceStep sha py reader settings naive data requests

end

end FraudDetection
