import FraudDetection.DefaultRules
import FraudDetection.Lib.DecimalRange
import FraudDetection.Theorems.Arithmetic
import FraudDetection.Theorems.RoundTrip
import FraudDetection.Theorems.TypeSoundness
import FraudDetection.Theorems.Velocity

/-!
# The default rule set and its policy

The five rules fire on what they are documented to fire on, in exact arithmetic, however large the velocity is, until a sum overflows
the decimal context. The thresholds are meant to send one signal to review and to reject two. Two pairs of rules do not reach the
second threshold: `FOREIGN_CURRENCY` together with `HIGH_VALUE_THRESHOLD`, or with `VELOCITY_COUNT_EXCEEDED`, scores 70 and goes to
review. `default_policy_iff` says that these are all the exceptions, and `default_policy_false` shows one.
-/

namespace FraudDetection

/-! ## The policy -/

section

variable (event : TransactionCreatedV1) (priorCount : ℕ) (priorAmounts : List Money)

/-- The amount is R10,000.00 or more. -/
def HighValue : Prop := 10000 ≤ event.amount.value.toRat

/-- More than R5,000.00 in a high-risk category. -/
def RiskyCategory : Prop := event.category ∈ ["GAMBLING", "CRYPTO"] ∧ 5000 < event.amount.value.toRat

/-- More than 5 transactions within the window, this one included. -/
def VelocityCountExceeded : Prop := 5 < priorCount + 1

/-- More than R50,000.00 within the window, this transaction included. -/
def VelocityAmountExceeded : Prop := 50000 < (priorAmounts.map fun m => m.value.toRat).sum + event.amount.value.toRat

/-- Not in ZAR. -/
def ForeignCurrency : Prop := event.currency ≠ "ZAR"

instance : Decidable (HighValue event) := inferInstanceAs (Decidable (_ ≤ _))
instance : Decidable (RiskyCategory event) := inferInstanceAs (Decidable (_ ∧ _))
instance : Decidable (VelocityCountExceeded priorCount) := inferInstanceAs (Decidable (_ < _))
instance : Decidable (VelocityAmountExceeded event priorAmounts) := inferInstanceAs (Decidable (_ < _))
instance : Decidable (ForeignCurrency event) := inferInstanceAs (Decidable (_ ≠ _))

/-- The rules that are documented to fire, in the order of the definition. -/
def documentedRules : List String :=
  ([("HIGH_VALUE_THRESHOLD", decide (HighValue event)),
    ("RISKY_CATEGORY_LIMIT", decide (RiskyCategory event)),
    ("VELOCITY_COUNT_EXCEEDED", decide (VelocityCountExceeded priorCount)),
    ("VELOCITY_AMOUNT", decide (VelocityAmountExceeded event priorAmounts)),
    ("FOREIGN_CURRENCY", decide (ForeignCurrency event))].filter (·.2)).map (·.1)

/-- One signal goes to review, two together are rejected. -/
def policyVerdict : ℕ → Verdict
  | 0 => .approved
  | 1 => .review
  | _ => .rejected

/-- The default rule set does as documented: the rules that fire, in order, and the verdict. -/
def MeetsPolicy : Prop :=
  ∃ a, evaluateRuleSet defaultRuleSetDefinition (.ofEvent event priorCount (sumAmounts priorAmounts)) = .ok a ∧
    a.triggeredRules = documentedRules event priorCount priorAmounts ∧
    a.verdict = policyVerdict (documentedRules event priorCount priorAmounts).length

/-- `FOREIGN_CURRENCY` and exactly one other rule, which is one of those that score 40. -/
def WeakPair : Prop :=
  ForeignCurrency event ∧ ¬RiskyCategory event ∧ ¬VelocityAmountExceeded event priorAmounts ∧
    (HighValue event ∧ ¬VelocityCountExceeded priorCount ∨ ¬HighValue event ∧ VelocityCountExceeded priorCount)

end

namespace DefaultRulesAux

open Decimal

/-! ## Sums of cents -/

/-- A number that is not negative, of at most two decimal places. -/
def Cents (d : Decimal) : Prop := ∃ units : ℕ, d.toRat = units / 10 ^ 2

theorem Cents.nonneg {d : Decimal} (h : Cents d) : 0 ≤ d.toRat := by
  obtain ⟨units, hu⟩ := h
  rw [hu]
  positivity

theorem toRat_ofInt (n : ℤ) : (ofInt n).toRat = n := by
  rw [ofInt, toRat, zpow_zero, mul_one]

theorem cents_ofInt (n : ℕ) : Cents (.ofInt n) := by
  refine ⟨n * 100, ?_⟩
  rw [toRat_ofInt]
  push_cast
  ring

theorem cents_money (m : Money) : Cents m.value := ⟨m.units, m.toQuantity.toRat_eq⟩

theorem cents_add {a b d : Decimal} (ha : Cents a) (hb : Cents b) (hd : d.toRat = a.toRat + b.toRat) : Cents d := by
  obtain ⟨m, hm⟩ := ha
  obtain ⟨n, hn⟩ := hb
  refine ⟨m + n, ?_⟩
  rw [hd, hm, hn]
  push_cast
  ring

theorem cents_sumAmounts (amounts : List Money) : Cents (sumAmounts amounts) := by
  unfold Cents
  rw [VelocityAux.sumAmounts_toRat]
  induction amounts with
  | nil => exact ⟨0, by norm_num⟩
  | cons m amounts ih =>
    obtain ⟨units, hu⟩ := ih
    refine ⟨m.units + units, ?_⟩
    rw [List.map_cons, List.sum_cons, hu, m.toQuantity.toRat_eq]
    push_cast
    ring

theorem money_lt (m : Money) : m.value.toRat < 10 ^ 17 := by
  have hlt : (m.units : ℚ) < 10 ^ 18 := by exact_mod_cast m.toQuantity.units_lt
  rw [m.toQuantity.toRat_eq, div_lt_iff₀ (by norm_num)]
  linarith

theorem addExact_zero_toRat (a : Decimal) : (addExact (ofInt 0) a).toRat = a.toRat := by
  rw [addExact_toRat, toRat_ofInt, Int.cast_zero, zero_add]

/-- A number of cents that 28 digits hold. -/
theorem fits_of_cents {d : Decimal} (h : Cents d) (hlt : d.toRat < 10 ^ 26) : d.Fits := by
  obtain ⟨units, hu⟩ := h
  refine ⟨units, -2, ?_, by decide, ?_⟩
  · rw [hu, div_lt_iff₀ (by norm_num)] at hlt
    have hlt' : (units : ℚ) < 10 ^ 28 := by linarith
    rw [abs_of_nonneg (Int.natCast_nonneg _)]
    exact_mod_cast hlt'
  · rw [hu, zpow_neg]
    rfl

theorem coeff_nonneg {d : Decimal} (h : 0 ≤ d.toRat) : 0 ≤ d.coeff := by
  have hp : (0 : ℚ) < (10 : ℚ) ^ d.exp := by positivity
  exact_mod_cast nonneg_of_mul_nonneg_left h hp

/-- Rounding takes a large number to a large number. -/
theorem large_rounded {d : Decimal} (h : 10 ^ 26 ≤ d.toRat) : 10 ^ 26 ≤ (rounded d).toRat := by
  have hd : 0 ≤ d.toRat := le_trans (by norm_num) h
  have hr := rounded_nonneg (coeff_nonneg hd)
  have hle := pow_le_rounded (d := d) (j := 26) (by rwa [abs_of_nonneg hd])
  rwa [abs_of_nonneg hr] at hle

/-- Two roundings do not take a sum to the other side of a bound that is not itself large. -/
theorem rounded_sum_iff {a b : Decimal} (ha : Cents a) (hb : Cents b) {bound : ℚ} (hbound : bound < 10 ^ 26) :
    bound < (rounded (addExact (rounded (addExact (ofInt 0) a)) b)).toRat ↔ bound < a.toRat + b.toRat := by
  have hfirst := addExact_zero_toRat a
  have hsum := addExact_toRat (rounded (addExact (ofInt 0) a)) b
  have ha0 := ha.nonneg
  have hb0 := hb.nonneg
  by_cases hlarge : 10 ^ 26 ≤ a.toRat
  · have hr : 10 ^ 26 ≤ (rounded (addExact (ofInt 0) a)).toRat := large_rounded (by rwa [hfirst])
    have hr' := large_rounded (d := addExact (rounded (addExact (ofInt 0) a)) b) (by rw [hsum]; linarith)
    exact iff_of_true (by linarith) (by linarith)
  · -- the first sum is exact
    have hexact : (rounded (addExact (ofInt 0) a)).toRat = a.toRat := by
      have hfits : (addExact (ofInt 0) a).Fits := (fits_congr hfirst).mpr (fits_of_cents ha (not_le.mp hlarge))
      rw [(rounded_toRat_iff _).mpr hfits, hfirst]
    rw [hexact] at hsum
    by_cases hlarge' : 10 ^ 26 ≤ a.toRat + b.toRat
    · have hr' := large_rounded (d := addExact (rounded (addExact (ofInt 0) a)) b) (by rwa [hsum])
      exact iff_of_true (by linarith) (by linarith)
    · have hcents : Cents (addExact (rounded (addExact (ofInt 0) a)) b) := cents_add ha hb hsum
      have hfits := fits_of_cents hcents (by rw [hsum]; exact not_le.mp hlarge')
      rw [(rounded_toRat_iff _).mpr hfits, hsum]

/-- The second sum of two overflows only if the first does. -/
theorem second_in_range {a b : Decimal} (ha : Cents a) (hb : Cents b) (hsmall : b.toRat < 10 ^ 17)
    (h : a.toRat < overflowBound) :
    ¬(addExact (ofInt 0) a).Overflows ∧ ¬(addExact (rounded (addExact (ofInt 0) a)) b).Overflows := by
  have hfirst := addExact_zero_toRat a
  have hin : ¬(addExact (ofInt 0) a).Overflows := by
    rw [overflows_iff, hfirst, abs_of_nonneg ha.nonneg]
    exact not_le.mpr h
  refine ⟨hin, ?_⟩
  have hle := abs_rounded_le hin
  have hroom : (10 : ℚ) ^ (18 : ℤ) ≤ (10 : ℚ) ^ etop := zpow_le_zpow_right₀ (by norm_num) (by decide)
  have hb0 := hb.nonneg
  have hr0 : 0 ≤ (rounded (addExact (ofInt 0) a)).toRat := rounded_nonneg (coeff_nonneg (by rw [hfirst]; exact ha.nonneg))
  rw [abs_of_nonneg hr0] at hle
  rw [overflows_iff, addExact_toRat, abs_of_nonneg (by linarith)]
  refine not_le.mpr ?_
  have h18 : (10 : ℚ) ^ (18 : ℤ) = 10 ^ 18 := by norm_num
  rw [h18] at hroom
  have hbound : overflowBound = (10 ^ prec - 1) * (10 : ℚ) ^ etop + (10 : ℚ) ^ etop / 2 := by
    unfold overflowBound
    ring
  rw [hbound]
  linarith

/-- `sum` of two numbers of cents: it raises from the bound on, and below it is on the right side of every small bound. -/
theorem sum_cents {a b : Decimal} (ha : Cents a) (hb : Cents b) (hsmall : b.toRat < 10 ^ 17) :
    (overflowBound ≤ a.toRat ∧ ∃ e, sum [.num a, .num b] = .error e) ∨
      (a.toRat < overflowBound ∧ ∃ d, sum [.num a, .num b] = .ok (.num d) ∧
        ∀ bound : ℚ, bound < 10 ^ 26 → (bound < d.toRat ↔ bound < a.toRat + b.toRat)) := by
  have hsum : sum [.num a, .num b] = (do
      let c ← arithmetic "+" (add (ofInt 0) a)
      let d ← arithmetic "+" (add c b)
      return Value.num d) := by
    unfold sum
    simp only [numbers, toDecimal, Except.ok_bind, Except.pure_def, foldDecimals, bind_assoc]
  by_cases h : overflowBound ≤ a.toRat
  · left
    have hover : (addExact (ofInt 0) a).Overflows := by
      rw [overflows_iff, addExact_zero_toRat, abs_of_nonneg ha.nonneg]
      exact h
    refine ⟨h, .arithmetic "+" .overflow, ?_⟩
    rw [hsum, add, fix_eq, if_pos hover]
    rfl
  · right
    have hlt := not_le.mp h
    obtain ⟨hin, hin'⟩ := second_in_range ha hb hsmall hlt
    refine ⟨hlt, rounded (addExact (rounded (addExact (ofInt 0) a)) b), ?_, fun bound hbound => rounded_sum_iff ha hb hbound⟩
    rw [hsum, add, fix_eq, if_neg hin]
    simp only [arithmetic, Except.ok_bind]
    rw [add, fix_eq, if_neg hin']
    rfl

/-! ## The variables -/

/-- What the rules read of an event. -/
theorem lookups {event : TransactionCreatedV1} {priorCount : ℕ} {priorAmount : Decimal} {vars : Value}
    (h : (EvaluationContext.ofEvent event priorCount priorAmount).asVariables = .ok vars) :
    lookupVariable vars "amount" = some (.num event.amount.value) ∧
      lookupVariable vars "currency" = some (.str event.currency) ∧
      lookupVariable vars "category" = some (.str event.category) ∧
      lookupVariable vars "velocity.prior_count" = some (.num (.ofInt priorCount)) ∧
      lookupVariable vars "velocity.prior_amount" = some (.num priorAmount) := by
  obtain ⟨enrichment, -, h⟩ := Except.bind_eq_ok.mp h
  cases h
  refine ⟨?_, ?_, ?_, ?_, ?_⟩
  · rw [SoundnessAux.lookup_plain (by decide)]
    rfl
  · rw [SoundnessAux.lookup_plain (by decide)]
    rfl
  · rw [SoundnessAux.lookup_plain (by decide)]
    rfl
  · rw [SoundnessAux.lookup_nested "velocity" "prior_count" (by decide) rfl]
    rfl
  · rw [SoundnessAux.lookup_nested "velocity" "prior_amount" (by decide) rfl]
    rfl

/-! ## The rules -/

section

variable {vars : Value} {event : TransactionCreatedV1}

theorem evaluate_var {name : String} {v : Value} (h : lookupVariable vars name = some v) :
    evaluate vars (normaliseLiteral (var name)) = .ok v := by
  simp [var, normaliseLiteral, normaliseEntries, evaluate, operate, h]

/-- An operator that is applied to the values of two arguments. -/
theorem evaluate_eager {operator : String} {left right : Json} {v w : Value}
    (hname : operator ≠ "var" ∧ operator ≠ "and" ∧ operator ≠ "or" ∧ operator ≠ "if")
    (hl : evaluate vars (normaliseLiteral left) = .ok v) (hr : evaluate vars (normaliseLiteral right) = .ok w) :
    evaluate vars (normaliseLiteral (.obj [(operator, .arr [left, right])])) = applyOperator operator [v, w] := by
  simp only [normaliseLiteral, normaliseEntries, normaliseItems, evaluate, evaluateEach, operate, if_neg hname.1, if_neg hname.2.1,
    if_neg hname.2.2.1, if_neg hname.2.2.2, hl, hr, collect, Except.ok_bind, Except.pure_def]

theorem evaluate_int (n : ℤ) : evaluate vars (normaliseLiteral (.int n)) = .ok (.num (.ofInt n)) := by
  simp only [normaliseLiteral, evaluate]

theorem greater (a b : Decimal) :
    applyOperator ">" [.num a, .num b] = .ok (.bool (decide (b.toRat < a.toRat))) := by
  have hv : b.lt a = decide (b.toRat < a.toRat) := by rw [Bool.eq_iff_iff, Decimal.lt_iff, decide_eq_true_iff]
  simp [applyOperator, operators, compare, numbers, toDecimal, pairwise, hv]

theorem greaterOrEqual (a b : Decimal) :
    applyOperator ">=" [.num a, .num b] = .ok (.bool (decide (b.toRat ≤ a.toRat))) := by
  have hv : b.le a = decide (b.toRat ≤ a.toRat) := by rw [Bool.eq_iff_iff, Decimal.le_iff, decide_eq_true_iff]
  simp [applyOperator, operators, compare, numbers, toDecimal, pairwise, hv]

/-- `and` of two true-or-false answers. -/
theorem evaluate_and {left right : Json} {p q : Bool} (hl : evaluate vars (normaliseLiteral left) = .ok (.bool p))
    (hr : evaluate vars (normaliseLiteral right) = .ok (.bool q)) :
    evaluate vars (normaliseLiteral (.obj [("and", .arr [left, right])])) = .ok (.bool (p && q)) := by
  simp only [normaliseLiteral, normaliseEntries, normaliseItems, evaluate, evaluateEach, operate]
  rw [if_neg (by decide), if_pos trivial, hl, hr]
  cases p <;> cases q <;> rfl

theorem highValue_answer (hamount : lookupVariable vars "amount" = some (.num event.amount.value)) :
    evaluate vars (normaliseLiteral (.obj [(">=", .arr [var "amount", .int 10000])])) = .ok (.bool (decide (HighValue event))) := by
  rw [evaluate_eager (by decide) (evaluate_var hamount) (evaluate_int 10000), greaterOrEqual, toRat_ofInt]
  rfl

theorem riskyCategory_answer (hamount : lookupVariable vars "amount" = some (.num event.amount.value))
    (hcategory : lookupVariable vars "category" = some (.str event.category)) :
    evaluate vars (normaliseLiteral (.obj [("and", .arr [
      .obj [("in", .arr [var "category", .arr [.str "GAMBLING", .str "CRYPTO"]])],
      .obj [(">", .arr [var "amount", .int 5000])]])])) = .ok (.bool (decide (RiskyCategory event))) := by
  have hlist : evaluate vars (normaliseLiteral (.arr [.str "GAMBLING", .str "CRYPTO"])) =
      .ok (.list [.str "GAMBLING", .str "CRYPTO"]) := rfl
  have hin : applyOperator "in" [.str event.category, .list [.str "GAMBLING", .str "CRYPTO"]] =
      .ok (.bool (decide (event.category ∈ ["GAMBLING", "CRYPTO"]))) := by
    simp [applyOperator, operators, binary, membership, equals, Value.pyEq, Bool.decide_or, beq_eq_decide]
  have hleft : evaluate vars (normaliseLiteral (.obj [("in", .arr [var "category", .arr [.str "GAMBLING", .str "CRYPTO"]])])) =
      .ok (.bool (decide (event.category ∈ ["GAMBLING", "CRYPTO"]))) := by
    rw [evaluate_eager (by decide) (evaluate_var hcategory) hlist, hin]
  have hright : evaluate vars (normaliseLiteral (.obj [(">", .arr [var "amount", .int 5000])])) =
      .ok (.bool (decide (5000 < event.amount.value.toRat))) := by
    rw [evaluate_eager (by decide) (evaluate_var hamount) (evaluate_int 5000), greater, toRat_ofInt]
    rfl
  rw [evaluate_and hleft hright, ← Bool.decide_and]
  rfl

theorem foreignCurrency_answer (hcurrency : lookupVariable vars "currency" = some (.str event.currency)) :
    evaluate vars (normaliseLiteral (.obj [("!=", .arr [var "currency", .str "ZAR"])])) =
      .ok (.bool (decide (ForeignCurrency event))) := by
  have hzar : evaluate vars (normaliseLiteral (.str "ZAR")) = .ok (.str "ZAR") := rfl
  have hdiffers : ∀ v w : Value, applyOperator "!=" [v, w] = .ok (.bool (!equals v w)) := by
    intro v w
    simp [applyOperator, operators, binary]
  rw [evaluate_eager (by decide) (evaluate_var hcurrency) hzar, hdiffers, equals, Value.pyEq]
  unfold ForeignCurrency
  by_cases h : event.currency = "ZAR"
  · simp [h]
  · simp [h]

/-- `{">": [{"+": [left, right]}, limit]}`: the sum raises, or the answer is that of exact arithmetic. -/
theorem sumAbove_answer {left right : Json} {a b : Decimal} (hl : evaluate vars (normaliseLiteral left) = .ok (.num a))
    (hr : evaluate vars (normaliseLiteral right) = .ok (.num b)) (ha : Cents a) (hb : Cents b) (hsmall : b.toRat < 10 ^ 17)
    (limit : ℤ) (hlimit : (limit : ℚ) < 10 ^ 26) :
    (overflowBound ≤ a.toRat ∧
        ∃ e, evaluate vars (normaliseLiteral (.obj [(">", .arr [.obj [("+", .arr [left, right])], .int limit])])) = .error e) ∨
      (a.toRat < overflowBound ∧
        evaluate vars (normaliseLiteral (.obj [(">", .arr [.obj [("+", .arr [left, right])], .int limit])])) =
          .ok (.bool (decide ((limit : ℚ) < a.toRat + b.toRat)))) := by
  have hplus : evaluate vars (normaliseLiteral (.obj [("+", .arr [left, right])])) = sum [.num a, .num b] :=
    evaluate_eager (by decide) hl hr
  rcases sum_cents ha hb hsmall with ⟨hle, e, he⟩ | ⟨hlt, d, hd, hbound⟩
  · refine .inl ⟨hle, e, ?_⟩
    rw [he] at hplus
    generalize Json.obj [("+", .arr [left, right])] = plus at hplus ⊢
    simp only [normaliseLiteral, normaliseEntries, normaliseItems, evaluate, evaluateEach, operate]
    rw [if_neg (by decide), if_neg (by decide), if_neg (by decide), if_neg (by decide), hplus]
    rfl
  · refine .inr ⟨hlt, ?_⟩
    rw [evaluate_eager (by decide) (hplus.trans hd) (evaluate_int limit), greater, toRat_ofInt]
    simp only [hbound limit hlimit]

end

/-! ## Firing the rules -/

/-- Rules that all answer true or false: those that answer true fire, in order, and their scores add up. -/
theorem fireRules_answers {vars : Value} {rules : List (String × ℕ × Node)} {answers : List Bool}
    (h : List.Forall₂ (fun rule answer => evaluate vars rule.2.2 = .ok (.bool answer)) rules answers) :
    ∀ triggered riskScore, fireRules vars rules triggered riskScore =
      .ok (triggered ++ ((rules.zip answers).filter (·.2)).map (·.1.1),
        riskScore + (((rules.zip answers).filter (·.2)).map (·.1.2.1)).sum) := by
  induction h with
  | nil =>
    intro triggered riskScore
    simp [fireRules]
  | @cons rule answer rules answers hrule _ ih =>
    intro triggered riskScore
    obtain ⟨code, score, condition⟩ := rule
    rw [fireRules, hrule]
    cases answer with
    | false =>
      simp only [Value.truthy, Bool.false_eq_true, if_false]
      rw [ih]
      simp
    | true =>
      simp only [Value.truthy, if_true]
      rw [ih]
      simp [Nat.add_assoc]

/-- The verdict on the rules that fire is that of the policy, but for the pairs that score 70. -/
theorem verdict_iff (high risky count amount foreign : Bool) :
    defaultRuleSetDefinition.verdictFor
        ((([(40, high), (50, risky), (40, count), (50, amount), (30, foreign)] : List (ℕ × Bool)).filter (·.2)).map (·.1)).sum =
      policyVerdict ([high, risky, count, amount, foreign].filter id).length ↔
        ¬(foreign = true ∧ risky = false ∧ amount = false ∧ high ≠ count) := by
  cases high <;> cases risky <;> cases count <;> cases amount <;> cases foreign <;> decide

/-- The JSON of the default rule set is what its definition dumps. -/
theorem defaultRuleSetJson_eq : defaultRuleSetJson = defaultRuleSetDefinition.modelDump := rfl

/-- `DEFAULT_RULE_SET_DEFINITION` is accepted, and parsed to the definition. -/
theorem default_parsed (py : Interpreter) : parseRuleSetDefinition py defaultRuleSetJson = .ok defaultRuleSetDefinition := by
  have hdry : evaluateRuleSet defaultRuleSetDefinition dryRunContext = .ok ⟨[], 0, .approved⟩ := by decide +kernel
  unfold parseRuleSetDefinition
  rw [defaultRuleSetJson_eq, StoredAux.modelValidate_modelDump py defaultRuleSetDefinition]
  simp only [hdry]

/-- The answers of the five rules. -/
def answers (event : TransactionCreatedV1) (priorCount : ℕ) (priorAmounts : List Money) : List Bool :=
  [decide (HighValue event), decide (RiskyCategory event), decide (VelocityCountExceeded priorCount),
    decide (VelocityAmountExceeded event priorAmounts), decide (ForeignCurrency event)]

theorem compiled_eq : defaultRuleSetDefinition.compiled =
    defaultRuleSources.map fun rule => (rule.code, rule.score, normaliseLiteral (.obj rule.condition)) := by
  have hrules : defaultRuleSetDefinition.compiled = (defaultRuleSources.pmap RuleSource.definition defaultRuleSources_accepted).map
      fun rule => (rule.code, rule.score, normaliseLiteral (.obj rule.condition)) := rfl
  rw [hrules, List.map_pmap]
  exact List.pmap_eq_map (f := fun rule => (rule.code, rule.score, normaliseLiteral (.obj rule.condition))) defaultRuleSources_accepted

variable {event : TransactionCreatedV1} {priorCount : ℕ} {priorAmounts : List Money} {vars : Value}

/-- Below the bound, every rule answers as documented. -/
theorem answers_documented
    (h : (EvaluationContext.ofEvent event priorCount (sumAmounts priorAmounts)).asVariables = .ok vars)
    (hcount : (priorCount : ℚ) < overflowBound) (hamount : (priorAmounts.map fun m => m.value.toRat).sum < overflowBound) :
    List.Forall₂ (fun rule answer => evaluate vars rule.2.2 = .ok (.bool answer)) defaultRuleSetDefinition.compiled
      (answers event priorCount priorAmounts) := by
  obtain ⟨hvar, hcurrency, hcategory, hprior, hsum⟩ := lookups h
  rw [compiled_eq]
  refine .cons (highValue_answer hvar) (.cons (riskyCategory_answer hvar hcategory) (.cons ?_ (.cons ?_
    (.cons (foreignCurrency_answer hcurrency) .nil))))
  · rcases sumAbove_answer (evaluate_var hprior) (evaluate_int 1) (cents_ofInt priorCount) (cents_ofInt 1)
      (by rw [toRat_ofInt]; norm_num) 5 (by norm_num) with ⟨hle, -⟩ | ⟨-, hanswer⟩
    · rw [toRat_ofInt] at hle
      exact absurd hcount (not_lt.mpr hle)
    · refine hanswer.trans ?_
      congr 2
      rw [decide_eq_decide, toRat_ofInt, toRat_ofInt, VelocityCountExceeded]
      norm_cast
  · rcases sumAbove_answer (evaluate_var hsum) (evaluate_var hvar) (cents_sumAmounts priorAmounts) (cents_money event.amount)
      (money_lt event.amount) 50000 (by norm_num) with ⟨hle, -⟩ | ⟨-, hanswer⟩
    · rw [VelocityAux.sumAmounts_toRat] at hle
      exact absurd hamount (not_lt.mpr hle)
    · refine hanswer.trans ?_
      congr 2
      rw [decide_eq_decide, VelocityAux.sumAmounts_toRat, VelocityAmountExceeded]
      norm_cast

/-- A score means that the variables could be built and that neither sum overflowed. -/
theorem in_range_of_ok {a : Assessment}
    (h : evaluateRuleSet defaultRuleSetDefinition (.ofEvent event priorCount (sumAmounts priorAmounts)) = .ok a) :
    PrintsMinutes event ∧ (priorCount : ℚ) < overflowBound ∧ (priorAmounts.map fun m => m.value.toRat).sum < overflowBound := by
  unfold evaluateRuleSet at h
  cases hvars : (EvaluationContext.ofEvent event priorCount (sumAmounts priorAmounts)).asVariables with
  | error e =>
    rw [hvars] at h
    cases h
  | ok vars =>
    rw [hvars] at h
    obtain ⟨fired, hfired, -⟩ := Except.bind_eq_ok.mp h
    obtain ⟨hvar, hcurrency, hcategory, hprior, hsum⟩ := lookups hvars
    have hevery := (ArithmeticAux.fireRules_ok_iff vars _ _ _).mp ⟨_, hfired⟩
    rw [compiled_eq] at hevery
    refine ⟨(ArithmeticAux.asVariables_ok_iff _ _ _).mp ⟨vars, hvars⟩, ?_, ?_⟩
    · rcases sumAbove_answer (evaluate_var hprior) (evaluate_int 1) (cents_ofInt priorCount) (cents_ofInt 1)
        (by rw [toRat_ofInt]; norm_num) 5 (by norm_num) with ⟨-, e, he⟩ | ⟨hlt, -⟩
      · obtain ⟨v, hv⟩ := hevery _ (List.mem_map.mpr ⟨defaultRuleSources.get ⟨2, by decide⟩, List.get_mem _ _, rfl⟩)
        exact absurd (he.symm.trans hv) nofun
      · rwa [toRat_ofInt] at hlt
    · rcases sumAbove_answer (evaluate_var hsum) (evaluate_var hvar) (cents_sumAmounts priorAmounts) (cents_money event.amount)
        (money_lt event.amount) 50000 (by norm_num) with ⟨-, e, he⟩ | ⟨hlt, -⟩
      · obtain ⟨v, hv⟩ := hevery _ (List.mem_map.mpr ⟨defaultRuleSources.get ⟨3, by decide⟩, List.get_mem _ _, rfl⟩)
        exact absurd (he.symm.trans hv) nofun
      · rwa [VelocityAux.sumAmounts_toRat] at hlt

end DefaultRulesAux

open Decimal DefaultRulesAux

/-- The default rule set fires the rules it is documented to fire, in order, with the documented verdict, exactly when the event's
minutes can be printed, neither velocity overflows the decimal context, and the rules that fire are not one of the two pairs that
score 70. -/
theorem default_policy_iff (event : TransactionCreatedV1) (priorCount : ℕ) (priorAmounts : List Money) :
    MeetsPolicy event priorCount priorAmounts ↔
      PrintsMinutes event ∧ (priorCount : ℚ) < overflowBound ∧ (priorAmounts.map fun m => m.value.toRat).sum < overflowBound ∧
        ¬WeakPair event priorCount priorAmounts := by
  have hpair : ¬WeakPair event priorCount priorAmounts ↔
      ¬(decide (ForeignCurrency event) = true ∧ decide (RiskyCategory event) = false ∧
        decide (VelocityAmountExceeded event priorAmounts) = false ∧
        decide (HighValue event) ≠ decide (VelocityCountExceeded priorCount)) := by
    unfold WeakPair
    simp only [decide_eq_true_iff, decide_eq_false_iff_not, ne_eq, decide_eq_decide]
    tauto
  have hscored : ∀ vars, (EvaluationContext.ofEvent event priorCount (sumAmounts priorAmounts)).asVariables = .ok vars →
      (priorCount : ℚ) < overflowBound → (priorAmounts.map fun m => m.value.toRat).sum < overflowBound →
      ∃ riskScore, evaluateRuleSet defaultRuleSetDefinition (.ofEvent event priorCount (sumAmounts priorAmounts)) =
          .ok ⟨documentedRules event priorCount priorAmounts, riskScore, defaultRuleSetDefinition.verdictFor riskScore⟩ ∧
        (defaultRuleSetDefinition.verdictFor riskScore =
            policyVerdict (documentedRules event priorCount priorAmounts).length ↔ ¬WeakPair event priorCount priorAmounts) := by
    intro vars hvars hcount hamount
    have hfired := fireRules_answers (answers_documented hvars hcount hamount) [] 0
    unfold evaluateRuleSet
    rw [hvars]
    simp only
    rw [hfired, compiled_eq, hpair, ← verdict_iff]
    unfold documentedRules answers
    generalize decide (HighValue event) = high
    generalize decide (RiskyCategory event) = risky
    generalize decide (VelocityCountExceeded priorCount) = count
    generalize decide (VelocityAmountExceeded event priorAmounts) = amount
    generalize decide (ForeignCurrency event) = foreign
    cases high <;> cases risky <;> cases count <;> cases amount <;> cases foreign <;> exact ⟨_, rfl, Iff.rfl⟩
  constructor
  · rintro ⟨a, ha, -, hverdict⟩
    obtain ⟨hminutes, hcount, hamount⟩ := in_range_of_ok ha
    obtain ⟨vars, hvars⟩ := (ArithmeticAux.asVariables_ok_iff event priorCount (sumAmounts priorAmounts)).mpr hminutes
    obtain ⟨riskScore, heval, hiff⟩ := hscored vars hvars hcount hamount
    rw [heval] at ha
    cases ha
    exact ⟨hminutes, hcount, hamount, hiff.mp hverdict⟩
  · rintro ⟨hminutes, hcount, hamount, hnot⟩
    obtain ⟨vars, hvars⟩ := (ArithmeticAux.asVariables_ok_iff event priorCount (sumAmounts priorAmounts)).mpr hminutes
    obtain ⟨riskScore, heval, hiff⟩ := hscored vars hvars hcount hamount
    exact ⟨_, heval, rfl, hiff.mpr hnot⟩

/-- R10,000.00 in dollars, with nothing before it: two rules fire, for a score of 70, and it goes to review. -/
theorem default_policy_false :
    evaluateRuleSet defaultRuleSetDefinition (.ofEvent ArithmeticExample.event 0 (sumAmounts [])) =
        .ok ⟨["HIGH_VALUE_THRESHOLD", "FOREIGN_CURRENCY"], 70, .review⟩ ∧
      documentedRules ArithmeticExample.event 0 [] = ["HIGH_VALUE_THRESHOLD", "FOREIGN_CURRENCY"] ∧
      ¬MeetsPolicy ArithmeticExample.event 0 [] := by
  have heval : evaluateRuleSet defaultRuleSetDefinition (.ofEvent ArithmeticExample.event 0 (sumAmounts [])) =
      .ok ⟨["HIGH_VALUE_THRESHOLD", "FOREIGN_CURRENCY"], 70, .review⟩ := by decide +kernel
  have hrules : documentedRules ArithmeticExample.event 0 [] = ["HIGH_VALUE_THRESHOLD", "FOREIGN_CURRENCY"] := by decide +kernel
  refine ⟨heval, hrules, ?_⟩
  rintro ⟨a, ha, -, hverdict⟩
  rw [heval] at ha
  cases ha
  rw [hrules] at hverdict
  cases hverdict

end FraudDetection
