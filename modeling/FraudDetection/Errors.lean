/-!
# Failures and their classes

Every failure the worker sees is sorted into one of three classes: `transient` (retried for as long as it takes), `permanent`
(dead-lettered at once) and `unexpected` (retried a bounded number of times). An exception is known by its class, and one that
SQLAlchemy wraps by what it wraps as well.
-/

namespace FraudDetection

/-- `FailureClass`: how the worker reacts to a failure. -/
inductive FailureClass where
  | transient | permanent | unexpected
  deriving DecidableEq, Repr

/-- The text of a failure class, as a header carries it. -/
def FailureClass.value : FailureClass → String
  | .transient => "transient"
  | .permanent => "permanent"
  | .unexpected => "unexpected"

/-- The exceptions that are told apart. `other` is any other class, by its name. -/
inductive ErrorClass where
  | transientError
  | corruptRuleSetError
  | invalidEventError
  | unsupportedSchemaVersionError
  | conflictingDuplicateError
  | invalidRuleSetError
  | ruleEvaluationError
  | ruleSetNotFoundError
  | ruleSetVersionConflictError
  | transactionNotFoundError
  /-- pydantic's. -/
  | validationError
  | timeoutError
  | connectionError
  | osError
  | postgresConnectionError
  | cannotConnectNowError
  | tooManyConnectionsError
  | queryCanceledError
  | redisConnectionError
  | redisTimeoutError
  | sqlalchemyTimeoutError
  | other (name : String)
  deriving DecidableEq, Repr

namespace ErrorClass

/-- `isinstance(exc, (TransientError, RuleSetNotFoundError))`. -/
def statesTransient : ErrorClass → Bool
  | .transientError | .corruptRuleSetError | .ruleSetNotFoundError => true
  | _ => false

/-- `isinstance(exc, (PermanentError, ValidationError))`. -/
def statesPermanent : ErrorClass → Bool
  | .invalidEventError | .unsupportedSchemaVersionError | .conflictingDuplicateError | .invalidRuleSetError
  | .validationError => true
  | _ => false

/-- `_TRANSIENT_LIBRARY_ERRORS`: a dependency is unavailable. -/
def isTransientLibraryError : ErrorClass → Bool
  | .timeoutError | .connectionError | .osError | .postgresConnectionError | .cannotConnectNowError
  | .tooManyConnectionsError | .queryCanceledError | .redisConnectionError | .redisTimeoutError
  | .sqlalchemyTimeoutError => true
  | _ => false

end ErrorClass

/-- The kinds of `sqlalchemy.exc.DBAPIError`. -/
inductive DbapiKind where
  | operationalError | interfaceError | other
  deriving DecidableEq, Repr

/-- An exception: of a class, or a driver error that SQLAlchemy wraps, with the class of what it wraps and of its cause. -/
inductive PyException where
  | error (cls : ErrorClass)
  | dbapi (kind : DbapiKind) (connectionInvalidated : Bool) (orig cause : Option ErrorClass)
  deriving DecidableEq, Repr

/-- `classify_failure`. -/
def classifyFailure : PyException → FailureClass
  | .error cls =>
    if cls.statesTransient then .transient
    else if cls.statesPermanent then .permanent
    else if cls.isTransientLibraryError then .transient
    else .unexpected
  | .dbapi kind connectionInvalidated orig cause =>
    if connectionInvalidated then .transient
    else if (orig.toList ++ cause.toList).any ErrorClass.isTransientLibraryError then .transient
    else if kind = .operationalError ∨ kind = .interfaceError then .transient
    else .unexpected

/-! ## Errors of the PostgreSQL server -/

/-- What is used of asyncpg: the class of exception it raises for a SQLSTATE. A class stands for its subclasses. -/
structure Asyncpg where
  errorClass : String → ErrorClass
  /-- Of the classes that are told apart, it raises these only. -/
  postgresError : ∀ sqlstate, errorClass sqlstate ∈ [.postgresConnectionError, .cannotConnectNowError, .tooManyConnectionsError,
    .queryCanceledError] ∨ ∃ name, errorClass sqlstate = .other name
  /-- Its connection exceptions are of class 08. -/
  connection : ∀ sqlstate, errorClass sqlstate = .postgresConnectionError → ['0', '8'] <+: sqlstate.toList
  tooManyConnections : ∀ sqlstate, errorClass sqlstate = .tooManyConnectionsError ↔ sqlstate = "53300"
  queryCanceled : ∀ sqlstate, errorClass sqlstate = .queryCanceledError ↔ sqlstate = "57014"
  cannotConnectNow : ∀ sqlstate, errorClass sqlstate = .cannotConnectNowError ↔ sqlstate = "57P03"

/-- An error the server reports of its own condition, whatever the statement: insufficient resources (class 53), operator
intervention (class 57), or a transaction that is read-only after a failover. -/
structure Outage where
  sqlstate : String
  /-- Whether the connection was closed. -/
  connectionClosed : Bool
  serverSide : ['5', '3'] <+: sqlstate.toList ∨ ['5', '7'] <+: sqlstate.toList ∨ sqlstate = "25006"

/-- The exception SQLAlchemy raises for it: a plain `DBAPIError` around the dialect's `Error`, whose cause is asyncpg's. -/
def Outage.raised (outage : Outage) (driver : Asyncpg) : PyException :=
  .dbapi .other outage.connectionClosed (some (.other "Error")) (some (driver.errorClass outage.sqlstate))

/-! ## Errors of the API -/

/-- FastAPI's `HTTPException`, which ends a request with a status of its own. -/
structure HTTPException where
  status : Nat
  detail : String
  headers : List (String × String)
  deriving DecidableEq, Repr

end FraudDetection
