import FraudDetection.Versions
import Mathlib.Data.List.MinMax

/-!
# The active rule set

`RuleSetProvider.get_active` resolves the active rule set through three layers: an in-process copy, a Redis entry that all
providers share, and PostgreSQL. Every access to Redis or PostgreSQL is a step of its own, and calls of any number of providers
and publishes run at once. Time passes between steps.
-/

namespace FraudDetection

/-! ## The layers -/

/-- What `get_active` can raise. -/
inductive ActiveError where
  | notFound (key : String)
  | corrupt (error : LoadError)
  /-- The database could not be reached. -/
  | outage
  | cancelled
  deriving DecidableEq, Repr

def ActiveError.message : ActiveError → Option String
  | .notFound key => some ("No rule set exists for key '" ++ key ++ "'")
  | _ => none

/-- The row of the highest version of a key. -/
def latestRecord (rows : List RuleSetVersionRecord) (key : String) : Option RuleSetVersionRecord :=
  (rows.filter (·.ruleSetKey = key)).argmax (·.version)

/-- `get_latest_rule_set`. -/
def getLatestRuleSet (sha : Sha256) (py : Interpreter) (rows : List RuleSetVersionRecord) (key : String) :
    Except ActiveError RuleSet :=
  match latestRecord rows key with
  | none => .error (.notFound key)
  | some record =>
    match ruleSetFromRecord sha py record with
    | .ok ruleSet => .ok ruleSet
    | .error e => .error (.corrupt e)

/-- The JSON object a Redis entry holds. -/
structure CacheEntry where
  schema : ℤ
  key : String
  version : ℕ
  definition : Json
  contentHash : String
  description : String
  createdBy : String
  createdAt : Timestamp
  deriving Repr

/-- `_CACHE_ENTRY_SCHEMA`. -/
def cacheEntrySchema : ℤ := 1

/-- `_serialise`. -/
def serialise (ruleSet : RuleSet) : CacheEntry where
  schema := cacheEntrySchema
  key := ruleSet.key
  version := ruleSet.version
  definition := ruleSet.definition.modelDump
  contentHash := ruleSet.contentHash
  description := ruleSet.description
  createdBy := ruleSet.createdBy
  createdAt := ruleSet.createdAt

/-- `_deserialise`: nothing for an entry of another version of the format. -/
def deserialise (sha : Sha256) (py : Interpreter) (entry : CacheEntry) : Except LoadError (Option RuleSet) :=
  if entry.schema ≠ cacheEntrySchema then .ok none
  else do
    let definition ← loadStoredDefinition sha py entry.definition entry.contentHash (ruleSetLabel entry.key entry.version)
    return some ⟨entry.key, entry.version, definition, entry.contentHash, entry.description, entry.createdBy,
      entry.createdAt⟩

/-- The value of the Redis key, and when it vanishes. A payload that is no entry is `none`. -/
structure RedisValue where
  payload : Option CacheEntry
  expiresAt : ℚ

/-- `_cached` and `_cached_at`. -/
structure CachedRuleSet where
  ruleSet : RuleSet
  cachedAt : ℚ

/-- The settings of the cache. -/
structure CacheSettings where
  key : String
  localTtl : ℚ
  redisTtl : ℕ
  localTtl_ok : 0 ≤ localTtl
  redisTtl_ok : 1 ≤ redisTtl

/-! ## Calls and publishes -/

/-- Where a call of `get_active` is. -/
inductive ActivePhase where
  | readingRedis
  | readingDatabase
  /-- The row does not load, and the copy is about to be dropped. -/
  | rejected (error : LoadError)
  | writingRedis (ruleSet : RuleSet)
  /-- The copy is about to be filled. -/
  | loaded (ruleSet : RuleSet)
  | returned (ruleSet : RuleSet)
  | raised (error : ActiveError)

def ActivePhase.finished : ActivePhase → Bool
  | .returned _ | .raised _ => true
  | _ => false

/-- A call of `get_active`. -/
structure ActiveCall where
  provider : ℕ
  startedAt : ℚ
  phase : ActivePhase

/-- A publish, from its commit on. -/
inductive PublishPhase where
  | committed (ruleSet : RuleSet) (committedAt : ℚ)
  | ended

/-- A committed version, and when it was committed. The table has no such column. -/
structure CommittedVersion where
  record : RuleSetVersionRecord
  committedAt : ℚ

/-- The time, the three layers, and who is at work. `overwritten` collects the versions that a publish has written to Redis. -/
structure CacheState where
  now : ℚ
  versions : List CommittedVersion
  redis : Option RedisValue
  copies : ℕ → Option CachedRuleSet
  calls : ℕ → Option ActiveCall
  publishes : ℕ → Option PublishPhase
  overwritten : List ℕ

/-- An access to a layer, or time passing. -/
inductive CacheEvent where
  /-- A call starts, and looks at the copy of its provider. -/
  | start (call provider : ℕ)
  | getRedis (call : ℕ) (fails : Bool)
  | selectLatest (call : ℕ) (fails : Bool)
  | reject (call : ℕ)
  | setRedis (call : ℕ) (fails : Bool)
  | fill (call : ℕ)
  | cancel (call : ℕ)
  | commit (publish : ℕ) (record : RuleSetVersionRecord)
  | overwrite (publish : ℕ) (fails : Bool)
  | abandon (publish : ℕ)
  | tick (duration : ℚ)

namespace CacheState

/-- The rows of `rule_set_versions`. -/
def rows (s : CacheState) : List RuleSetVersionRecord := s.versions.map (·.record)

/-- The payload of the Redis key, unless it has expired. -/
def payload (s : CacheState) : Option CacheEntry :=
  match s.redis with
  | none => none
  | some value => if s.now < value.expiresAt then value.payload else none

/-- `_read_redis`: any failure reads as a miss. -/
def readRedis (sha : Sha256) (py : Interpreter) (s : CacheState) (fails : Bool) : Option RuleSet :=
  if fails then none
  else
    match s.payload with
    | none => none
    | some entry =>
      match deserialise sha py entry with
      | .ok ruleSet => ruleSet
      | .error _ => none

/-- A call goes on to a phase. -/
def setPhase (s : CacheState) (c : ℕ) (call : ActiveCall) (phase : ActivePhase) : CacheState :=
  { s with calls := Function.update s.calls c (some { call with phase := phase }) }

/-- A publish goes on to a phase. -/
def setPublish (s : CacheState) (p : ℕ) (phase : PublishPhase) : CacheState :=
  { s with publishes := Function.update s.publishes p (some phase) }

/-- The copy of a provider changes. -/
def setCopy (s : CacheState) (provider : ℕ) (copy : Option CachedRuleSet) : CacheState :=
  { s with copies := Function.update s.copies provider copy }

/-- A version is committed. -/
def addVersion (s : CacheState) (record : RuleSetVersionRecord) : CacheState :=
  { s with versions := s.versions ++ [⟨record, s.now⟩] }

/-- `SET` with an expiry, unless Redis fails. -/
def writeRedis (settings : CacheSettings) (s : CacheState) (ruleSet : RuleSet) (fails : Bool) : CacheState :=
  if fails then s else { s with redis := some ⟨some (serialise ruleSet), s.now + settings.redisTtl⟩ }

end CacheState

/-- The phase a call starts in: it has its result at once if the copy of its provider is recent enough. -/
def startPhase (settings : CacheSettings) (now : ℚ) : Option CachedRuleSet → ActivePhase
  | none => .readingRedis
  | some copy => if now - copy.cachedAt < settings.localTtl then .returned copy.ruleSet else .readingRedis

/-- What a step does. -/
def cacheStep (sha : Sha256) (py : Interpreter) (settings : CacheSettings) (s : CacheState) : CacheEvent → Option CacheState
  | .start c provider =>
    match s.calls c with
    | some _ => none
    | none => some (s.setPhase c ⟨provider, s.now, .readingRedis⟩ (startPhase settings s.now (s.copies provider)))
  | .getRedis c fails =>
    match s.calls c with
    | some ⟨provider, startedAt, .readingRedis⟩ =>
      some (s.setPhase c ⟨provider, startedAt, .readingRedis⟩
        (match s.readRedis sha py fails with
          | some ruleSet => .loaded ruleSet
          | none => .readingDatabase))
    | _ => none
  | .selectLatest c fails =>
    match s.calls c with
    | some ⟨provider, startedAt, .readingDatabase⟩ =>
      some (s.setPhase c ⟨provider, startedAt, .readingDatabase⟩
        (if fails then .raised .outage
          else
            match getLatestRuleSet sha py s.rows settings.key with
            | .ok ruleSet => .writingRedis ruleSet
            | .error (.corrupt e) => .rejected e
            | .error e => .raised e))
    | _ => none
  | .reject c =>
    match s.calls c with
    | some ⟨provider, startedAt, .rejected e⟩ =>
      some ((s.setCopy provider none).setPhase c ⟨provider, startedAt, .rejected e⟩ (.raised (.corrupt e)))
    | _ => none
  | .setRedis c fails =>
    match s.calls c with
    | some ⟨provider, startedAt, .writingRedis ruleSet⟩ =>
      some ((s.writeRedis settings ruleSet fails).setPhase c ⟨provider, startedAt, .writingRedis ruleSet⟩ (.loaded ruleSet))
    | _ => none
  | .fill c =>
    match s.calls c with
    | some ⟨provider, startedAt, .loaded ruleSet⟩ =>
      some ((s.setCopy provider (some ⟨ruleSet, s.now⟩)).setPhase c ⟨provider, startedAt, .loaded ruleSet⟩ (.returned ruleSet))
    | _ => none
  | .cancel c =>
    match s.calls c with
    | some call => if call.phase.finished then none else some (s.setPhase c call (.raised .cancelled))
    | none => none
  | .commit p record =>
    match s.publishes p with
    | some _ => none
    | none =>
      if record.ruleSetKey = settings.key ∧ record.version = currentVersion s.rows settings.key + 1 then
        some ((s.addVersion record).setPublish p
          (match ruleSetFromRecord sha py record with
            | .ok ruleSet => .committed ruleSet s.now
            | .error _ => .ended))
      else none
  | .overwrite p fails =>
    match s.publishes p with
    | some (.committed ruleSet _) =>
      let written := (s.writeRedis settings ruleSet fails).setPublish p .ended
      some (if fails then written else { written with overwritten := ruleSet.version :: s.overwritten })
    | _ => none
  | .abandon p =>
    match s.publishes p with
    | some (.committed _ _) => some (s.setPublish p .ended)
    | _ => none
  | .tick duration => if 0 ≤ duration then some { s with now := s.now + duration } else none

/-- Before any version, any call and any publish. -/
def CacheState.empty : CacheState := ⟨0, [], none, fun _ => none, fun _ => none, fun _ => none, []⟩

/-- Any number of providers and publishes of one key. -/
def ruleSetCache (sha : Sha256) (py : Interpreter) (settings : CacheSettings) : StepSystem CacheState CacheEvent where
  start s := s = .empty
  step := cacheStep sha py settings

end FraudDetection
