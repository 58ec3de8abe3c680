import FraudDetection.RuleSet
import FraudDetection.Lib.Jsonb

/-!
# Parsing, hashing and loading a rule-set definition

`parse_rule_set_definition` for a request body and `load_stored_definition` for a stored version: both validate the JSON against
the models, with every field's error, and dry-run the result. A stored version is first checked against its content hash.
-/

namespace FraudDetection

/-! ## What is used of the interpreter and its libraries -/

/-- What the checks use of pydantic and Python without its being part of this repository: how a whole-number field reads a JSON
value (a whole number is read as itself; other values may be accepted too, such as `40.0` or `"40"`), and `repr`. -/
structure Interpreter where
  /-- The number, or the message of the error. -/
  laxInt : Json → Except String ℤ
  laxInt_int : ∀ n, laxInt (.int n) = .ok n
  repr : Json → String

/-- SHA-256 in hexadecimal, of a text in UTF-8: two texts do not share a digest. -/
structure Sha256 where
  hexdigest : String → String
  injective : Function.Injective hexdigest

/-! ## Validation -/

/-- One error of a `ValidationError`: where, and what. -/
structure FieldError where
  loc : List String
  message : String
  deriving DecidableEq, Repr

/-- A validated value, or every error found. -/
abbrev Checked (α : Type) := Except (List FieldError) α

/-- An error at the place being checked. -/
def Checked.fail {α : Type} (message : String) : Checked α := .error [⟨[], message⟩]

/-- The errors of a part of a value, as errors of the value. -/
def Checked.at {α : Type} (part : String) : Checked α → Checked α
  | .ok a => .ok a
  | .error errors => .error (errors.map fun e => ⟨part :: e.loc, e.message⟩)

/-- Two checks, the errors of both. -/
def Checked.both {α β : Type} : Checked α → Checked β → Checked (α × β)
  | .ok a, .ok b => .ok (a, b)
  | .ok _, .error errors => .error errors
  | .error errors, .ok _ => .error errors
  | .error errors, .error errors' => .error (errors ++ errors')

theorem Checked.at_eq_ok {α : Type} {part : String} {r : Checked α} {a : α} : r.at part = .ok a ↔ r = .ok a := by
  cases r <;> simp [Checked.at]

theorem Checked.both_eq_ok {α β : Type} {r : Checked α} {r' : Checked β} {p : α × β} :
    r.both r' = .ok p ↔ r = .ok p.1 ∧ r' = .ok p.2 := by
  obtain ⟨a, b⟩ := p
  cases r <;> cases r' <;> simp [Checked.both]

/-- A required field. -/
def checkField {α : Type} (entries : List (String × Json)) (name : String) (check : Json → Checked α) : Checked α :=
  match Json.lookup entries name with
  | none => (Checked.fail "Field required").at name
  | some value => (check value).at name

/-- `extra="forbid"`: the errors of the keys that are not fields. -/
def checkExtra (entries : List (String × Json)) (fields : List String) : Checked Unit :=
  match entries.filter fun e => e.1 ∉ fields with
  | [] => .ok ()
  | extra => .error (extra.map fun e => ⟨[e.1], "Extra inputs are not permitted"⟩)

/-- A whole-number field with `ge` and, perhaps, `le`. -/
def checkInt (py : Interpreter) (ge : ℕ) (le : Option ℕ) (value : Json) : Checked {n : ℕ // ge ≤ n ∧ ∀ m ∈ le, n ≤ m} :=
  match py.laxInt value with
  | .error message => .fail message
  | .ok n =>
    if h : (ge : ℤ) ≤ n then
      if h' : ∀ m ∈ le, n ≤ (m : ℤ) then
        .ok ⟨n.toNat, by omega, fun m hm => by have := h' m hm; omega⟩
      else .fail ("Input should be less than or equal to " ++ toString (le.getD 0))
    else .fail ("Input should be greater than or equal to " ++ toString ge)

/-- `str` with `min_length=1, max_length=500`. -/
def checkDescription : Json → Checked {s : String // 1 ≤ s.length ∧ s.length ≤ 500}
  | .str s =>
    if h : 1 ≤ s.length then
      if h' : s.length ≤ 500 then .ok ⟨s, h, h'⟩ else .fail "String should have at most 500 characters"
    else .fail "String should have at least 1 character"
  | .lone _ => .fail "Input should be a valid string, unable to parse raw data as a unicode string"
  | _ => .fail "Input should be a valid string"

/-- `str` with the pattern of a rule code. -/
def checkCode : Json → Checked {s : String // codePattern s = true}
  | .str s =>
    if h : codePattern s = true then .ok ⟨s, h⟩
    else .fail "String should match pattern '^[A-Z][A-Z0-9_]\x7b2,63\x7d$'"
  | .lone _ => .fail "Input should be a valid string, unable to parse raw data as a unicode string"
  | _ => .fail "Input should be a valid string"

/-- `_validate_condition`, on a `dict[str, Any]`. -/
def checkCondition (py : Interpreter) :
    Json → Checked {c : List (String × Json) // validateExpression (.obj c) "condition" = .ok ()}
  | .obj c =>
    match h : validateExpression (.obj c) "condition" with
    | .ok () => .ok ⟨c, h⟩
    | .error e => .fail ("Value error, " ++ e.message py.repr)
  | _ => .fail "Input should be a valid dictionary"

/-- `RuleDefinition.model_validate`. -/
def checkRule (py : Interpreter) : Json → Checked RuleDefinition
  | .obj entries => do
    let ((((code, description), score), condition), _) ←
      ((((checkField entries "code" checkCode).both (checkField entries "description" checkDescription)).both
        (checkField entries "score" (checkInt py 0 (some 1000)))).both
        (checkField entries "condition" (checkCondition py))).both
        (checkExtra entries ["code", "description", "score", "condition"])
    return ⟨code, description, score, condition, code.2, description.2, score.2.2 1000 rfl, condition.2⟩
  | _ => .fail "Input should be a valid dictionary or instance of RuleDefinition"

/-- The items of a list, each checked at its index; too many valid ones stop the check. -/
def checkItems {α : Type} (check : Json → Checked α) (maximum given : ℕ) : ℕ → List Json → List α → List FieldError →
    Checked (List α)
  | _, [], valid, [] => .ok valid
  | _, [], _, errors => .error errors
  | index, item :: items, valid, errors =>
    match (check item).at (toString index) with
    | .ok a =>
      if maximum ≤ valid.length then
        .fail ("List should have at most " ++ toString maximum ++ " items after validation, not " ++ toString given)
      else checkItems check maximum given (index + 1) items (valid ++ [a]) errors
    | .error found => checkItems check maximum given (index + 1) items valid (errors ++ found)

/-- The codes that occur more than once, in order. -/
def duplicates (codes : List String) : List String :=
  ((codes.filter fun code => 1 < codes.count code).dedup).insertionSort (· ≤ ·)

/-- `_unique_codes`, on a list of 1 to 50 rules. -/
def checkRules (py : Interpreter) :
    Json → Checked {rules : List RuleDefinition // (1 ≤ rules.length ∧ rules.length ≤ 50) ∧ (rules.map (·.code)).Nodup}
  | .arr items => do
    let rules ← checkItems (checkRule py) 50 items.length 0 items [] []
    if h : 1 ≤ rules.length ∧ rules.length ≤ 50 then
      if h' : (rules.map (·.code)).Nodup then .ok ⟨rules, h, h'⟩
      else
        .fail ("Value error, rule codes must be unique; duplicated: " ++
          printed ((duplicates (rules.map (·.code))).map fun code => "'" ++ code ++ "'"))
    else .fail "List should have at least 1 item after validation, not 0"
  | _ => .fail "Input should be a valid list"

/-- `RuleSetDefinition.model_validate`, with `_ordered_thresholds` last. -/
def modelValidate (py : Interpreter) : Json → Checked RuleSetDefinition
  | .obj entries => do
    let ((((window, review), reject), rules), _) ←
      ((((checkField entries "velocity_window_seconds" (checkInt py 1 (some 86400))).both
        (checkField entries "review_threshold" (checkInt py 1 none))).both
        (checkField entries "reject_threshold" (checkInt py 1 none))).both
        (checkField entries "rules" (checkRules py))).both
        (checkExtra entries ["velocity_window_seconds", "review_threshold", "reject_threshold", "rules"])
    if h : review.1 ≤ reject.1 then
      return ⟨window, review, reject, rules, ⟨window.2.1, window.2.2 86400 rfl⟩, review.2.1, reject.2.1, rules.2.1, rules.2.2, h⟩
    else .fail "Value error, reject_threshold must be greater than or equal to review_threshold"
  | _ => .fail "Input should be a valid dictionary or instance of RuleSetDefinition"

/-! ## Parsing and loading -/

/-- A refusal of a request body: its summary and field-level details. -/
structure InvalidRuleSetError where
  message : String
  details : List (String × String)
  deriving DecidableEq, Repr

/-- Why a request body does not become a definition. -/
inductive ParseError where
  | invalid (error : InvalidRuleSetError)
  | python (error : PythonError)
  deriving DecidableEq, Repr

/-- The text of a `RuleEvaluationError` raised while scoring; `none` for any other exception. -/
def ScoringError.message : ScoringError → Option String
  | .rule _ (.python _) => none
  | .rule code e => some ("rule " ++ code ++ ": " ++ e.message)
  | .python _ => none

/-- `parse_rule_set_definition`. -/
def parseRuleSetDefinition (py : Interpreter) (raw : Json) : Except ParseError RuleSetDefinition :=
  match modelValidate py raw with
  | .error errors =>
    .error (.invalid ⟨"Rule set definition is invalid", errors.map fun e => (".".intercalate e.loc, e.message)⟩)
  | .ok definition =>
    match evaluateRuleSet definition dryRunContext with
    | .ok _ => .ok definition
    | .error (.rule _ (.python e)) => .error (.python e)
    | .error (.python e) => .error (.python e)
    | .error e => .error (.invalid ⟨"Rule set definition is invalid", [("rules", e.message.getD "")]⟩)

/-- `definition_json_hash`: SHA-256 of a definition's canonical JSON form. -/
def definitionJsonHash (sha : Sha256) (raw : Json) : String := sha.hexdigest raw.canonical

/-- `content_hash`. -/
def contentHash (sha : Sha256) (definition : RuleSetDefinition) : String := definitionJsonHash sha definition.modelDump

/-- Why a stored version is refused. -/
inductive LoadError where
  /-- The JSON does not match the stored hash. -/
  | changed (label : String)
  | invalid (label reason : String)
  | dryRun (label reason : String)
  | python (error : PythonError)
  deriving DecidableEq, Repr

/-- The text of a `CorruptRuleSetError`; `none` for any other exception. -/
def LoadError.message : LoadError → Option String
  | .changed label => some ("rule set " ++ label ++ " does not match its content hash; it was changed after publishing")
  | .invalid label reason => some ("rule set " ++ label ++ " is not a valid definition: " ++ reason)
  | .dryRun label reason => some ("rule set " ++ label ++ " fails the dry run: " ++ reason)
  | .python _ => none

/-- `load_stored_definition`. -/
def loadStoredDefinition (sha : Sha256) (py : Interpreter) (raw : Json) (storedHash label : String) :
    Except LoadError RuleSetDefinition :=
  if definitionJsonHash sha raw ≠ storedHash then .error (.changed label)
  else
    match modelValidate py raw with
    | .error errors => .error (.invalid label ((errors.head?.map (·.message)).getD ""))
    | .ok definition =>
      match evaluateRuleSet definition dryRunContext with
      | .ok _ => .ok definition
      | .error (.rule _ (.python e)) => .error (.python e)
      | .error (.python e) => .error (.python e)
      | .error e => .error (.dryRun label (e.message.getD ""))

end FraudDetection
