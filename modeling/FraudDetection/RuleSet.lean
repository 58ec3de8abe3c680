import FraudDetection.Validation
import FraudDetection.Events

/-!
# Rule sets

A rule set's definition, what a request body must look like to become one, and what evaluating one decides. A
`RuleDefinition` and a `RuleSetDefinition` carry what their validators check, so a definition that was never validated cannot
be built.
-/

namespace FraudDetection

/-! ## Scoring one transaction -/

/-- `EvaluationContext`: everything a rule can read about one transaction, including its velocity. -/
structure EvaluationContext where
  amount : Decimal
  currency : String
  category : String
  priorCount : ℕ
  priorAmount : Decimal
  channel : Option String
  country : Option String
  enrichment : List (String × Feature)

/-- `_normalise_literal` of an enrichment feature. Python refuses to print a whole number of more than 4300 digits. -/
def Feature.normalise : Feature → Except PythonError Value
  | .decimal d => .ok (.num d)
  | .int n => if 4300 < (Nat.toDigits 10 n).length then .error .valueError else .ok (.num (.ofInt n))
  | .bool b => .ok (.bool b)

/-- Every feature normalised, or the first failure. -/
def normaliseFeatures : List (String × Feature) → Except PythonError (List (String × Value))
  | [] => .ok []
  | (name, feature) :: features => do
    let value ← feature.normalise
    let entries ← normaliseFeatures features
    return (name, value) :: entries

/-- `as_variables`: the nested dict that `var` paths resolve against. Absent optional values are left out. -/
def EvaluationContext.asVariables (c : EvaluationContext) : Except PythonError Value := do
  let enrichment ← normaliseFeatures c.enrichment
  return .dict ([
    ("amount", .num c.amount),
    ("currency", .str c.currency),
    ("category", .str c.category),
    ("velocity", .dict [("prior_count", .num (.ofInt c.priorCount)), ("prior_amount", .num c.priorAmount)]),
    ("enrichment", .dict enrichment)] ++
    (c.channel.map fun v => ("channel", Value.str v)).toList ++
    (c.country.map fun v => ("country", Value.str v)).toList)

/-- The context `score_transaction` builds for an event, given its velocity. -/
def EvaluationContext.ofEvent (event : TransactionCreatedV1) (priorCount : ℕ) (priorAmount : Decimal) :
    EvaluationContext where
  amount := event.amount.value
  currency := event.currency
  category := event.category
  priorCount := priorCount
  priorAmount := priorAmount
  channel := event.channel
  country := event.country
  enrichment := (event.enrichment.map Enrichment.modelDump).getD []

/-- `Verdict`: the recommended action. -/
inductive Verdict where
  | approved | review | rejected
  deriving DecidableEq, Repr

/-- `Assessment`: the outcome of scoring one transaction. -/
structure Assessment where
  triggeredRules : List String
  riskScore : ℕ
  verdict : Verdict
  deriving DecidableEq, Repr

/-- `is_fraud`: anything that is not APPROVED. -/
def Assessment.isFraud (a : Assessment) : Bool := decide (a.verdict ≠ .approved)

/-! ## Definitions -/

/-- `^[A-Z][A-Z0-9_]{2,63}$`. -/
def codePattern (code : String) : Bool :=
  match code.toList with
  | [] => false
  | c :: rest =>
    c.isUpper && decide (2 ≤ rest.length) && decide (rest.length ≤ 63) &&
      rest.all fun c => c.isUpper || c.isDigit || c == '_'

/-- `RuleDefinition`: if `condition` is truthy for a transaction, add `score` to its risk. -/
structure RuleDefinition where
  code : String
  description : String
  score : ℕ
  condition : List (String × Json)
  code_ok : codePattern code = true
  description_ok : 1 ≤ description.length ∧ description.length ≤ 500
  score_ok : score ≤ 1000
  condition_ok : validateExpression (.obj condition) "condition" = .ok ()

/-- `RuleSetDefinition`: the stored, versioned body of a rule set. -/
structure RuleSetDefinition where
  velocityWindowSeconds : ℕ
  reviewThreshold : ℕ
  rejectThreshold : ℕ
  rules : List RuleDefinition
  window_ok : 1 ≤ velocityWindowSeconds ∧ velocityWindowSeconds ≤ 86400
  review_ok : 1 ≤ reviewThreshold
  reject_ok : 1 ≤ rejectThreshold
  rules_ok : 1 ≤ rules.length ∧ rules.length ≤ 50
  codes_ok : (rules.map (·.code)).Nodup
  ordered_ok : reviewThreshold ≤ rejectThreshold

/-- `model_dump(mode="json")` of a rule. -/
def RuleDefinition.modelDump (rule : RuleDefinition) : Json := .obj [
  ("code", .str rule.code),
  ("description", .str rule.description),
  ("score", .int rule.score),
  ("condition", .obj rule.condition)]

namespace RuleSetDefinition

/-- `model_dump(mode="json")`. -/
def modelDump (d : RuleSetDefinition) : Json := .obj [
  ("velocity_window_seconds", .int d.velocityWindowSeconds),
  ("review_threshold", .int d.reviewThreshold),
  ("reject_threshold", .int d.rejectThreshold),
  ("rules", .arr (d.rules.map RuleDefinition.modelDump))]

/-- `_compiled`: every rule's code, score and condition with decimal literals. -/
def compiled (d : RuleSetDefinition) : List (String × ℕ × Node) :=
  d.rules.map fun rule => (rule.code, rule.score, normaliseLiteral (.obj rule.condition))

/-- `verdict_for`: a total score as a verdict. -/
def verdictFor (d : RuleSetDefinition) (riskScore : ℕ) : Verdict :=
  if d.rejectThreshold ≤ riskScore then .rejected
  else if d.reviewThreshold ≤ riskScore then .review
  else .approved

end RuleSetDefinition

/-- Why scoring stopped: a rule that could not be evaluated, or variables that could not be built. -/
inductive ScoringError where
  /-- `rule {code}: ...`. -/
  | rule (code : String) (error : EvaluationError)
  | python (error : PythonError)
  deriving DecidableEq, Repr

/-- Fire some compiled rules, given what fired before them. -/
def fireRules (context : Value) : List (String × ℕ × Node) → List String → ℕ → Except ScoringError (List String × ℕ)
  | [], triggered, riskScore => .ok (triggered, riskScore)
  | (code, score, condition) :: rules, triggered, riskScore =>
    match evaluate context condition with
    | .error e => .error (.rule code e)
    | .ok fired =>
      if fired.truthy then fireRules context rules (triggered ++ [code]) (riskScore + score)
      else fireRules context rules triggered riskScore

/-- `evaluate_rule_set`: fire every rule, sum the scores of those that match, and map the total to a verdict. -/
def evaluateRuleSet (d : RuleSetDefinition) (context : EvaluationContext) : Except ScoringError Assessment :=
  match context.asVariables with
  | .error e => .error (.python e)
  | .ok vars => do
    let (triggered, riskScore) ← fireRules vars d.compiled [] 0
    return ⟨triggered, riskScore, d.verdictFor riskScore⟩

/-- `_DRY_RUN_CONTEXT`. -/
def dryRunContext : EvaluationContext where
  amount := ⟨10000, -2⟩
  currency := "ZAR"
  category := "GROCERIES"
  priorCount := 1
  priorAmount := ⟨10000, -2⟩
  channel := none
  country := none
  enrichment := []

end FraudDetection
