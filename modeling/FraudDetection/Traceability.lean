import FraudDetection.Cache
import FraudDetection.Scoring

/-!
# Decisions and the rules that made them

The worker's path from the active rule set to a stored decision: a call of `get_active` returns a rule set, `process` scores an event
with it on the rows it finds, and `record_decision` stores the result. Publishes go on meanwhile, and so do edits of stored versions
and of Redis entries by other means than this code.
-/

namespace FraudDetection

/-! ## Where a rule set comes from -/

/-- The JSON of a row and the rule set it loads as. -/
def RuleSetVersionRecord.load (sha : Sha256) (py : Interpreter) (record : RuleSetVersionRecord) : Option (Json × RuleSet) :=
  match record.definition.toJson, ruleSetFromRecord sha py record with
  | some raw, .ok ruleSet => some (raw, ruleSet)
  | _, _ => none

/-- The JSON from which an access to a layer builds a rule set, and that rule set. -/
def CacheState.load (sha : Sha256) (py : Interpreter) (settings : CacheSettings) (s : CacheState) :
    CacheEvent → Option (Json × RuleSet)
  | .getRedis _ fails =>
    match s.payload, s.readRedis sha py fails with
    | some entry, some ruleSet => some (entry.definition, ruleSet)
    | _, _ => none
  | .selectLatest _ fails => if fails then none else (latestRecord s.rows settings.key).bind (·.load sha py)
  | .commit _ record => record.load sha py
  | _ => none

/-! ## Scoring -/

/-- A scored event: the rule set, and the committed rows the velocity query saw. -/
structure Scoring where
  event : TransactionCreatedV1
  ruleSet : RuleSet
  rows : List TransactionRecord
  score : Score

/-- The decision it makes. -/
def Scoring.decision (scoring : Scoring) : TransactionDecision :=
  transactionDecision scoring.event scoring.ruleSet scoring.score

/-- Everything at work. The code has no counterpart of `loads`, the rule sets built so far and what they were built from, and
keeps no `scorings`, those of each call of `record_decision`. -/
structure TraceState where
  cache : CacheState
  /-- The rows of `rule_set_versions` with other keys. -/
  others : List RuleSetVersionRecord
  decisions : DecisionsState
  loads : List (Json × RuleSet)
  scorings : ℕ → Option Scoring

/-- A step of this code, or an edit by other means. -/
inductive TraceEvent where
  /-- An access to the cache, a publish, or time passing. -/
  | cache (event : CacheEvent)
  /-- A version of another key is committed. -/
  | publishOther (record : RuleSetVersionRecord)
  /-- `process` scores an event with what a call of `get_active` has returned, and calls `record_decision`. -/
  | score (call active : ℕ) (event : TransactionCreatedV1) (provenance : MessageProvenance)
  | record (event : RecordEvent)
  /-- A stored definition is edited in place. -/
  | editVersion (index : ℕ) (definition : Jsonb)
  | editOther (index : ℕ) (definition : Jsonb)
  /-- The Redis entry is edited or deleted. -/
  | editRedis (value : Option RedisValue)

/-- The event is one of this code's. -/
def TraceEvent.isStep : TraceEvent → Bool
  | .editVersion _ _ | .editOther _ _ | .editRedis _ => false
  | _ => true

/-- A call of `record_decision` begins. -/
def RecordEvent.begins : RecordEvent → Bool
  | .begin _ _ => true
  | _ => false

namespace TraceState

/-- The table `rule_set_versions`. -/
def versions (s : TraceState) : List RuleSetVersionRecord := s.cache.rows ++ s.others

/-- The table `transactions`. -/
def transactions (s : TraceState) : List TransactionRecord := s.decisions.transactions.rows.map (·.record)

end TraceState

/-- What a step or an edit does. -/
def traceStep (sha : Sha256) (py : Interpreter) (settings : CacheSettings) (data : Position → TransactionData)
    (s : TraceState) : TraceEvent → Option TraceState
  | .cache event =>
    (cacheStep sha py settings s.cache event).map fun cache =>
      { s with cache := cache, loads := s.loads ++ (s.cache.load sha py settings event).toList }
  | .publishOther record => if record.ruleSetKey = settings.key then none else some { s with others := s.others ++ [record] }
  | .score call active event provenance =>
    match s.cache.calls active with
    | some ⟨_, _, .returned ruleSet⟩ =>
      match scoreTransaction s.transactions ruleSet.definition (.ofEvent event) with
      | .error _ => none
      | .ok score =>
        let scoring : Scoring := ⟨event, ruleSet, s.transactions, score⟩
        (recordStep data s.decisions (.begin call ⟨scoring.decision, provenance⟩)).map fun decisions =>
          { s with decisions := decisions, scorings := Function.update s.scorings call (some scoring) }
    | _ => none
  | .record event =>
    if event.begins then none
    else (recordStep data s.decisions event).map fun decisions => { s with decisions := decisions }
  | .editVersion index definition =>
    some { s with cache := { s.cache with
      versions := s.cache.versions.modify index fun v => { v with record := { v.record with definition := definition } } } }
  | .editOther index definition =>
    some { s with others := s.others.modify index fun record => { record with definition := definition } }
  | .editRedis value => some { s with cache := { s.cache with redis := value } }

/-- Before anything. -/
def TraceState.empty : TraceState := ⟨.empty, [], .empty, [], fun _ => none⟩

/-- Workers, publishes and edits, of one rule set and one `transactions` table. -/
def tracing (sha : Sha256) (py : Interpreter) (settings : CacheSettings) (data : Position → TransactionData) :
    StepSystem TraceState TraceEvent where
  start s := s = .empty
  step := traceStep sha py settings data

end FraudDetection
