import FraudDetection.Definition

/-!
# The default rule set

`DEFAULT_RULE_SET_DEFINITION`: version 1 of `fraud-default`, which the first migration seeds. Amounts are in ZAR.
-/

namespace FraudDetection

/-- A rule as a definition's JSON writes it. -/
structure RuleSource where
  code : String
  description : String
  score : ℕ
  condition : List (String × Json)

/-- `{"var": name}`. -/
def var (name : String) : Json := .obj [("var", .str name)]

/-- The rules, in order. -/
def defaultRuleSources : List RuleSource := [
  { code := "HIGH_VALUE_THRESHOLD"
    description := "A single transaction of R10,000.00 or more."
    score := 40
    condition := [(">=", .arr [var "amount", .int 10000])] },
  { code := "RISKY_CATEGORY_LIMIT"
    description := "More than R5,000.00 in a high-risk category (GAMBLING, CRYPTO)."
    score := 50
    condition := [("and", .arr [
      .obj [("in", .arr [var "category", .arr [.str "GAMBLING", .str "CRYPTO"]])],
      .obj [(">", .arr [var "amount", .int 5000])]])] },
  { code := "VELOCITY_COUNT_EXCEEDED"
    description := "More than 5 transactions by the same user within the velocity window."
    score := 40
    condition := [(">", .arr [.obj [("+", .arr [var "velocity.prior_count", .int 1])], .int 5])] },
  { code := "VELOCITY_AMOUNT"
    description := "More than R50,000.00 spent by the same user within the velocity window."
    score := 50
    condition := [(">", .arr [.obj [("+", .arr [var "velocity.prior_amount", var "amount"])], .int 50000])] },
  { code := "FOREIGN_CURRENCY"
    description := "Not in ZAR: the amount thresholds above do not apply, so send it for review."
    score := 30
    condition := [("!=", .arr [var "currency", .str "ZAR"])] }]

/-- `DEFAULT_RULE_SET_DEFINITION`. -/
def defaultRuleSetJson : Json := .obj [
  ("velocity_window_seconds", .int 60),
  ("review_threshold", .int 30),
  ("reject_threshold", .int 75),
  ("rules", .arr (defaultRuleSources.map fun rule => .obj [
    ("code", .str rule.code),
    ("description", .str rule.description),
    ("score", .int rule.score),
    ("condition", .obj rule.condition)]))]

/-- What the validators check of a rule. -/
def RuleSource.Accepted (rule : RuleSource) : Prop :=
  codePattern rule.code = true ∧ (1 ≤ rule.description.length ∧ rule.description.length ≤ 500) ∧ rule.score ≤ 1000 ∧
    validateExpression (.obj rule.condition) "condition" = .ok ()

theorem defaultRuleSources_accepted : ∀ rule ∈ defaultRuleSources, rule.Accepted := by
  intro rule hrule
  simp only [defaultRuleSources, List.mem_cons, List.not_mem_nil, or_false] at hrule
  rcases hrule with rfl | rfl | rfl | rfl | rfl
  · exact ⟨by decide, by decide +kernel, by decide, rfl⟩
  · exact ⟨by decide, by decide +kernel, by decide, rfl⟩
  · exact ⟨by decide, by decide +kernel, by decide, rfl⟩
  · exact ⟨by decide, by decide +kernel, by decide, rfl⟩
  · exact ⟨by decide, by decide +kernel, by decide, rfl⟩

/-- An accepted rule. -/
def RuleSource.definition (rule : RuleSource) (h : rule.Accepted) : RuleDefinition :=
  ⟨rule.code, rule.description, rule.score, rule.condition, h.1, h.2.1, h.2.2.1, h.2.2.2⟩

/-- The rules of the default rule set. -/
def defaultRules : List RuleDefinition := defaultRuleSources.pmap RuleSource.definition defaultRuleSources_accepted

theorem defaultRules_length : 1 ≤ defaultRules.length ∧ defaultRules.length ≤ 50 := by
  rw [defaultRules, List.length_pmap]
  decide

theorem defaultRules_codes : (defaultRules.map (·.code)).Nodup := by
  have h : defaultRules.map (·.code) = defaultRuleSources.map (·.code) := rfl
  rw [h]
  decide

theorem default_window : 1 ≤ 60 ∧ 60 ≤ 86400 := by decide

theorem default_review : 1 ≤ 30 := by decide

theorem default_reject : 1 ≤ 75 := by decide

theorem default_ordered : 30 ≤ 75 := by decide

/-- What `DEFAULT_RULE_SET_DEFINITION` is parsed to. -/
def defaultRuleSetDefinition : RuleSetDefinition where
  velocityWindowSeconds := 60
  reviewThreshold := 30
  rejectThreshold := 75
  rules := defaultRules
  window_ok := default_window
  review_ok := default_review
  reject_ok := default_reject
  rules_ok := defaultRules_length
  codes_ok := defaultRules_codes
  ordered_ok := default_ordered

end FraudDetection
