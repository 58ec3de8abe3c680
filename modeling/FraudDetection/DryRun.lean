import FraudDetection.Scoring

/-!
# Dry-running a transaction

The evaluate endpoint: the body of a request is decoded with plain `json.loads`, which makes a float of a number that the event
parser makes a `Decimal` of; it is validated as an `EvaluateRequest`; and it is scored against the active version of a rule set,
with nothing stored.
-/

namespace FraudDetection

/-! ## The body of a request -/

section

variable (float : Decimal → PyFloat)

mutual

/-- A decoded value as plain `json.loads` decodes the same text: `float` reads a number with a fraction or an exponent. -/
def withFloats : DecimalJson → DecimalJson
  | .null => .null
  | .bool b => .bool b
  | .int n => .int n
  | .decimal d => .float (float d)
  | .float f => .float f
  | .str s => .str s
  | .arr items => .arr (withFloatsItems items)
  | .obj entries => .obj (withFloatsEntries entries)

def withFloatsItems : List DecimalJson → List DecimalJson
  | [] => []
  | item :: items => withFloats item :: withFloatsItems items

def withFloatsEntries : List (PyStr × DecimalJson) → List (PyStr × DecimalJson)
  | [] => []
  | (key, item) :: entries => (key, withFloats item) :: withFloatsEntries entries

end

end

/-! ## `EvaluateRequest` -/

/-- The fields of an `EvaluateRequest`. -/
def evaluateRequestFields : List String :=
  ["user_id", "amount", "currency", "category", "occurred_at", "channel", "country", "enrichment", "transaction_id"]

/-- `extra="forbid"`: the errors of the keys that are not fields. -/
def checkExtraKeys (entries : List (PyStr × DecimalJson)) (fields : List String) : Checked Unit :=
  match entries.filter fun entry => entry.1 ∉ fields.map PyStr.ofString with
  | [] => .ok ()
  | extra => .error (extra.map fun entry => ⟨[String.ofList (entry.1.map Char.ofNat)], "Extra inputs are not permitted"⟩)

/-- The enrichment of a request, which may be any object that has its attributes. -/
def checkRequestEnrichment (reader : EventReader) : DecimalJson → Checked Enrichment
  | .obj entries => checkEnrichment reader (.obj entries)
  | _ => .fail "Input should be a valid dictionary or object to extract fields from"

/-- `EvaluateRequest.model_validate`, of a body that FastAPI has decoded. -/
def EvaluateRequest.modelValidate (reader : EventReader) : DecimalJson → Checked EvaluateRequest
  | .null => (Checked.fail "Field required").at "body"
  | .obj entries => Checked.at "body" do
    let (((((((((userId, amount), currency), category), occurredAt), channel), country), enrichment), transactionId), _) ←
      (((((((((requiredField entries "user_id" fun v => .ofReader (reader.uuid v)).both
        (requiredField entries "amount" fun v => .ofReader (reader.money v))).both
        (requiredField entries "currency" (checkText currencyConstraints))).both
        (requiredField entries "category" (checkText categoryConstraints))).both
        (optionalField entries "occurred_at" fun v => .ofReader (reader.aware v))).both
        (optionalField entries "channel" (checkText channelConstraints))).both
        (optionalField entries "country" (checkText countryConstraints))).both
        (optionalField entries "enrichment" (checkRequestEnrichment reader))).both
        (optionalField entries "transaction_id" fun v => .ofReader (reader.uuid v))).both
        (checkExtraKeys entries evaluateRequestFields)
    return { userId, amount, currency, category, occurredAt, channel, country, enrichment, transactionId }
  | _ => (Checked.fail "Input should be a valid dictionary or object to extract fields from").at "body"

/-! ## The endpoint -/

/-- `VelocityContext`: the velocity inputs the dry run used. -/
structure VelocityContext where
  windowSeconds : ℕ
  priorCount : ℕ
  priorAmount : Decimal
  deriving DecidableEq, Repr

/-- `EvaluateResponse`: what the active rule set would decide for the hypothetical transaction. -/
structure EvaluateResponse where
  ruleSet : String
  riskScore : ℕ
  verdict : Verdict
  isFraud : Bool
  triggeredRules : List String
  velocity : VelocityContext
  deriving DecidableEq, Repr

/-- What a dry run ends with instead of a response, once a version is active: a body that is refused, or an exception of
`score_transaction`. -/
inductive EvaluateError where
  | requestValidationError (errors : List FieldError)
  | scoring (error : ScoreError)
  deriving DecidableEq, Repr

/-- The velocity a score of a rule set was based on. -/
def VelocityContext.ofScore (ruleSet : RuleSet) (score : Score) : VelocityContext where
  windowSeconds := ruleSet.definition.velocityWindowSeconds
  priorCount := score.priorCount
  priorAmount := score.priorAmount

/-- The response to a dry run from its score. -/
def EvaluateResponse.ofScore (ruleSet : RuleSet) (score : Score) : EvaluateResponse where
  ruleSet := ruleSetLabel ruleSet.key ruleSet.version
  riskScore := score.assessment.riskScore
  verdict := score.assessment.verdict
  isFraud := score.assessment.isFraud
  triggeredRules := score.assessment.triggeredRules
  velocity := .ofScore ruleSet score

/-- `evaluate`, of the active version `ruleSet`, at the time `now`. -/
def Api.evaluate (reader : EventReader) (rows : List TransactionRecord) (ruleSet : RuleSet) (now : AwareDatetime)
    (body : DecimalJson) : Except EvaluateError EvaluateResponse :=
  match EvaluateRequest.modelValidate reader body with
  | .error errors => .error (.requestValidationError errors)
  | .ok request =>
    match scoreTransaction rows ruleSet.definition (.ofRequest request now) with
    | .error e => .error (.scoring e)
    | .ok score => .ok (.ofScore ruleSet score)

end FraudDetection
