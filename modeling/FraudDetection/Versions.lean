import FraudDetection.Definition
import FraudDetection.Lib.StepSystem
import FraudDetection.Lib.UniqueTable

/-!
# Rule-set versions

The `rule_set_versions` table, `create_rule_set_version` and the endpoint that publishes a version. A call is a database
transaction of two statements, the read of the current version and the insert of the next one; what it raises and what it
returns follow the commit. Calls run concurrently, so they are also a system in which each statement is a step.
-/

namespace FraudDetection

/-! ## The table -/

/-- A row of `rule_set_versions`. -/
structure RuleSetVersionRecord where
  ruleSetKey : String
  version : ℕ
  definition : Jsonb
  contentHash : String
  description : String
  createdBy : String
  createdAt : Timestamp
  deriving Repr

/-- One stored version of a rule set, with its metadata. -/
structure RuleSet where
  key : String
  version : ℕ
  definition : RuleSetDefinition
  contentHash : String
  description : String
  createdBy : String
  createdAt : Timestamp

/-- `key@vN`: the value stored on each decision. -/
def ruleSetLabel (key : String) (version : ℕ) : String := key ++ "@v" ++ toString version

/-- `_rule_set_from_record`. -/
def ruleSetFromRecord (sha : Sha256) (py : Interpreter) (record : RuleSetVersionRecord) : Except LoadError RuleSet :=
  match record.definition.toJson with
  | none => .error (.python .valueError)
  | some raw => do
    let definition ← loadStoredDefinition sha py raw record.contentHash (ruleSetLabel record.ruleSetKey record.version)
    return ⟨record.ruleSetKey, record.version, definition, record.contentHash, record.description, record.createdBy,
      record.createdAt⟩

/-! ## The statements of a call -/

/-- The arguments of `create_rule_set_version`. -/
structure CreateCall where
  key : String
  definition : RuleSetDefinition
  definitionHash : String
  description : String
  createdBy : String
  expectedCurrentVersion : Option ℕ

/-- `RuleSetVersionConflictError`, in its two forms. -/
inductive VersionConflict where
  | unexpected (key : String) (current expected : ℕ)
  | concurrent (key : String)
  deriving DecidableEq, Repr

def VersionConflict.message : VersionConflict → String
  | .unexpected key current expected =>
    "Current version of '" ++ key ++ "' is " ++ toString current ++ ", expected " ++ toString expected
  | .concurrent key =>
    "Another version of '" ++ key ++ "' was created concurrently; retry with the new current version"

/-- What a call can raise. -/
inductive CreateError where
  | conflict (error : VersionConflict)
  /-- The database could not be reached or lost the transaction. -/
  | outage
  /-- PostgreSQL does not take the row: a text is too long for its column, a string has U+0000 or half of a surrogate pair, or a number
  is out of range. -/
  | refused
  /-- The committed row does not load. -/
  | corrupt (error : LoadError)
  deriving DecidableEq, Repr

/-- `SELECT coalesce(max(version), 0)` for a key. -/
def currentVersion (rows : List RuleSetVersionRecord) (key : String) : ℕ :=
  ((rows.filter (·.ruleSetKey = key)).map (·.version)).foldl max 0

/-- The refusal of a call whose guard does not hold. -/
def guardConflict (call : CreateCall) (current : ℕ) : Option VersionConflict :=
  match call.expectedCurrentVersion with
  | none => none
  | some expected => if current ≠ expected then some (.unexpected call.key current expected) else none

/-- A text in a column of so many characters. -/
def fitsColumn (limit : ℕ) (s : String) : Bool := decide (s.length ≤ limit) && Jsonb.storable s

/-- The row a call inserts; `none` when PostgreSQL does not take it. A content hash always fits the 64 characters of its column. -/
def newRecord (call : CreateCall) (current : ℕ) (now : Timestamp) : Option RuleSetVersionRecord :=
  if fitsColumn 64 call.key ∧ fitsColumn 500 call.description ∧ fitsColumn 255 call.createdBy ∧
      current + 1 ≤ 2147483647 then
    (Jsonb.ofJson call.definition.modelDump).map fun definition =>
      ⟨call.key, current + 1, definition, call.definitionHash, call.description, call.createdBy, now⟩
  else none

/-! ## One call alone -/

/-- `create_rule_set_version`, without a competitor: what it returns or raises, and the table after it. `outage`: the database
fails before the commit. -/
def createRuleSetVersion (sha : Sha256) (py : Interpreter) (now : Timestamp) (outage : Bool)
    (rows : List RuleSetVersionRecord) (call : CreateCall) : Except CreateError RuleSet × List RuleSetVersionRecord :=
  let current := currentVersion rows call.key
  if outage then (.error .outage, rows)
  else
    match guardConflict call current with
    | some conflict => (.error (.conflict conflict), rows)
    | none =>
      match newRecord call current now with
      | none => (.error .refused, rows)
      | some record =>
        if ∃ r ∈ rows, r.ruleSetKey = record.ruleSetKey ∧ r.version = record.version then
          (.error (.conflict (.concurrent call.key)), rows)
        else
          match ruleSetFromRecord sha py record with
          | .ok ruleSet => (.ok ruleSet, rows ++ [record])
          | .error e => (.error (.corrupt e), rows ++ [record])

/-! ## Publishing -/

/-- The body of a publish, and who sends it. -/
structure CreateVersionRequest where
  key : String
  definition : Json
  description : String
  expectedCurrentVersion : Option ℕ
  subject : String

/-- What a publish can raise. -/
inductive PublishError where
  | parse (error : ParseError)
  | create (error : CreateError)
  deriving DecidableEq, Repr

/-- What a publish can change: the table, and the Redis entry of the key. -/
structure PublishState where
  rows : List RuleSetVersionRecord
  cache : Option RuleSet

/-- `write_rule_set_cache`: overwrite the entry, unless Redis fails. A failure is not raised. -/
def writeRuleSetCache (redisFails : Bool) (cache : Option RuleSet) (ruleSet : RuleSet) : Bool × Option RuleSet :=
  if redisFails then (false, cache) else (true, some ruleSet)

/-- `create_version`: parse, store, then overwrite the Redis entry. -/
def createVersion (sha : Sha256) (py : Interpreter) (now : Timestamp) (outage redisFails : Bool) (s : PublishState)
    (request : CreateVersionRequest) : Except PublishError RuleSet × PublishState :=
  match parseRuleSetDefinition py request.definition with
  | .error e => (.error (.parse e), s)
  | .ok definition =>
    let call : CreateCall := ⟨request.key, definition, contentHash sha definition, request.description, request.subject,
      request.expectedCurrentVersion⟩
    match createRuleSetVersion sha py now outage s.rows call with
    | (.error e, rows) => (.error (.create e), ⟨rows, s.cache⟩)
    | (.ok ruleSet, rows) => (.ok ruleSet, ⟨rows, (writeRuleSetCache redisFails s.cache ruleSet).2⟩)

/-! ## Concurrent calls -/

/-- A row of the table, with the call that inserted it (`none`: it was there before). The table has no such column. -/
structure StoredVersion where
  record : RuleSetVersionRecord
  call : Option ℕ

/-- `uq_rule_set_versions_key_version`. -/
def StoredVersion.key (v : StoredVersion) : String × ℕ := (v.record.ruleSetKey, v.record.version)

/-- Where a call is. -/
inductive CreatePhase where
  | called
  /-- It has read the current version, and its guard holds. -/
  | selected (current : ℕ)
  /-- Its row is inserted and not committed. -/
  | flushed (record : RuleSetVersionRecord)
  | committed (record : RuleSetVersionRecord)
  | returned (ruleSet : RuleSet)
  | raised (error : CreateError)

/-- The table and the calls. -/
structure VersionsState where
  table : UniqueTable StoredVersion
  phase : ℕ → CreatePhase

/-- A statement or an outcome of one call. -/
inductive CreateEvent where
  | select (call : ℕ)
  | flush (call : ℕ) (now : Timestamp)
  /-- The commit; it may happen without the call hearing of it. -/
  | commit (call : ℕ) (acknowledged : Bool)
  | reload (call : ℕ)
  /-- The database fails the call, and rolls its transaction back. -/
  | fail (call : ℕ)

/-- A call goes on to a phase. -/
def VersionsState.setPhase (s : VersionsState) (call : ℕ) (phase : CreatePhase) : VersionsState :=
  ⟨s.table, Function.update s.phase call phase⟩

/-- The committed rows. -/
def VersionsState.rows (s : VersionsState) : List RuleSetVersionRecord := s.table.rows.map (·.record)

/-- What a step of a call does. `calls` gives the arguments of every call. -/
def createStep (sha : Sha256) (py : Interpreter) (calls : ℕ → CreateCall) (s : VersionsState) :
    CreateEvent → Option VersionsState
  | .select i =>
    match s.phase i with
    | .called =>
      let current := currentVersion s.rows (calls i).key
      match guardConflict (calls i) current with
      | some conflict => some (s.setPhase i (.raised (.conflict conflict)))
      | none => some (s.setPhase i (.selected current))
    | _ => none
  | .flush i now =>
    match s.phase i with
    | .selected current =>
      match newRecord (calls i) current now with
      | none => some (s.setPhase i (.raised .refused))
      | some record =>
        match s.table.insert StoredVersion.key i ⟨record, some i⟩ with
        | .blocked => none
        | .conflict => some (s.setPhase i (.raised (.conflict (.concurrent (calls i).key))))
        | .inserted table => some ((⟨table, s.phase⟩ : VersionsState).setPhase i (.flushed record))
    | _ => none
  | .commit i acknowledged =>
    match s.phase i with
    | .flushed record =>
      some ((⟨s.table.commit i, s.phase⟩ : VersionsState).setPhase i
        (if acknowledged then .committed record else .raised .outage))
    | _ => none
  | .reload i =>
    match s.phase i with
    | .committed record =>
      match ruleSetFromRecord sha py record with
      | .ok ruleSet => some (s.setPhase i (.returned ruleSet))
      | .error e => some (s.setPhase i (.raised (.corrupt e)))
    | _ => none
  | .fail i =>
    match s.phase i with
    | .called | .selected _ | .flushed _ =>
      some ((⟨s.table.rollback i, s.phase⟩ : VersionsState).setPhase i (.raised .outage))
    | _ => none

/-- The versions of a key, in the order in which they were committed. -/
def versionsOf (rows : List RuleSetVersionRecord) (key : String) : List ℕ :=
  (rows.filter (·.ruleSetKey = key)).map (·.version)

/-- The versions of every key are `1, 2, ..., n`. -/
def GapFree (rows : List RuleSetVersionRecord) : Prop :=
  ∀ key, versionsOf rows key = List.range' 1 (versionsOf rows key).length

/-- Concurrent calls on a table whose versions have no gaps, such as an empty one. -/
def versions (sha : Sha256) (py : Interpreter) (calls : ℕ → CreateCall) : StepSystem VersionsState CreateEvent where
  start s := (∀ i, s.phase i = .called) ∧ s.table.pending = [] ∧ (∀ v ∈ s.table.rows, v.call = none) ∧ GapFree s.rows
  step := createStep sha py calls

end FraudDetection
