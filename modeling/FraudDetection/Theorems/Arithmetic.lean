import FraudDetection.Lemmas.Arithmetic
import FraudDetection.Theorems.RoundTrip

/-!
# When rule arithmetic fails, and when it is exact

The static check bounds how many operations a condition holds and says nothing about how large their results are or how many
digits they have. Here: a rule set scores an event exactly when no result overflows the decimal context, and evaluation is exact
arithmetic exactly when every sum, difference, negation and product it comes to has 28 digits at most.
-/

namespace FraudDetection

/-- Python prints the event's minutes since the last transaction, which it refuses to do beyond 4300 digits. -/
def PrintsMinutes (event : TransactionCreatedV1) : Prop :=
  ∀ enrichment, event.enrichment = some enrichment → ∀ minutes, enrichment.minutesSinceLastTx = some minutes →
    (Nat.toDigits 10 minutes).length ≤ 4300

/-- With numbers of any size, no operation of any rule has a result above the largest exponent. -/
def StaysInRange (d : RuleSetDefinition) (vars : Value) : Prop :=
  ∀ rule ∈ d.compiled, ∀ x ∈ (evaluateIn atAnySize vars rule.2.2).records, ¬x.Overflows

/-- Every number that evaluation computes, once rounded, is the one exact arithmetic computes there, and so is its value `v`. -/
def EvaluatesExactly (vars : Value) (node : Node) (v : Value) : Prop :=
  List.Forall₂ (fun x y => ∃ z, y.fix = .ok z ∧ SameNumber x z) (evaluateIn exactly vars node).records
      (evaluateIn Decimal.fix vars node).records ∧
    ∃ w, (evaluateIn exactly vars node).value = .ok w ∧ Alike SameNumber w v

namespace ArithmeticAux

open Decimal

/-! ## The three roundings -/

theorem fix_signals_iff (x : Decimal) : (∃ s, x.fix = .error s) ↔ x.Overflows := by
  rw [fix_eq]
  split
  · rename_i h
    exact ⟨fun _ => h, fun _ => ⟨_, rfl⟩⟩
  · rename_i h
    refine ⟨?_, fun ho => absurd ho h⟩
    rintro ⟨_, he⟩
    cases he

theorem agree_fix_iff {x : Decimal} : Agree Eq Decimal.fix atAnySize x ↔ ¬x.Overflows := by
  unfold Agree
  simp only [forall_eq', fix_eq, atAnySize]
  split
  · rename_i h
    exact ⟨fun hr => hr.elim, fun hn => absurd h hn⟩
  · rename_i h
    exact ⟨fun _ => h, fun _ => rfl⟩

theorem agree_atAnySize {x : Decimal} (h : ¬x.Overflows) : Agree Eq atAnySize Decimal.fix x := by
  unfold Agree
  simp only [forall_eq', fix_eq, atAnySize, if_neg h]
  rfl

theorem agree_exactly {x : Decimal} (h : x.Fits) : Agree SameNumber exactly atAnySize x := by
  intro y hy
  have hfits : y.Fits := (fits_congr hy).mp h
  exact Eq.trans hy ((rounded_toRat_iff y).mpr hfits).symm

theorem eq_of_related {r r' : Except EvaluationError Value} (h : r.Related (Alike Eq) r') : r = r' := by
  cases r <;> cases r'
  · exact congrArg _ h
  · exact h.elim
  · exact h.elim
  · exact congrArg _ (eq_of_alike _ _ h)

/-- An evaluation with nothing too large is the same with or without a largest exponent. -/
theorem evaluateIn_fix_of_records {vars : Value} {node : Node}
    (h : ∀ x ∈ (evaluateIn Decimal.fix vars node).records, ¬x.Overflows) :
    (evaluateIn Decimal.fix vars node).value = (evaluateIn atAnySize vars node).value ∧
      (evaluateIn Decimal.fix vars node).records = (evaluateIn atAnySize vars node).records := by
  obtain ⟨hv, hr⟩ := evaluateIn_follows respects_eq vars node fun x hx => agree_fix_iff.mpr (h x hx)
  exact ⟨eq_of_related hv, List.forall₂_eq_eq_eq ▸ hr⟩

/-- An evaluation of no signal rounds nothing too large. -/
theorem records_of_noSignal {vars : Value} {node : Node} (h : ∀ e, evaluate vars node = .error e → ¬e.IsArithmetic) :
    ∀ x ∈ (evaluateIn Decimal.fix vars node).records, ¬x.Overflows := by
  intro x hx ho
  obtain ⟨e, he, ha⟩ := (evaluateIn_signals Decimal.fix vars node).mpr ⟨x, hx, (fix_signals_iff x).mpr ho⟩
  rw [evaluateIn_fix] at he
  exact h e he ha

/-- Evaluation signals exactly when something is too large at any size. -/
theorem evaluate_signals_iff (vars : Value) (node : Node) :
    (∃ e, evaluate vars node = .error e ∧ e.IsArithmetic) ↔
      ∃ x ∈ (evaluateIn atAnySize vars node).records, x.Overflows := by
  constructor
  · rintro ⟨e, he, ha⟩
    by_contra hnone
    have hsmall : ∀ x ∈ (evaluateIn atAnySize vars node).records, ¬x.Overflows := fun x hx ho => hnone ⟨x, hx, ho⟩
    obtain ⟨-, hr⟩ := evaluateIn_follows respects_eq vars node fun x hx => agree_atAnySize (hsmall x hx)
    rw [List.forall₂_eq_eq_eq] at hr
    rw [← evaluateIn_fix] at he
    obtain ⟨x, hx, hs⟩ := (evaluateIn_signals Decimal.fix vars node).mp ⟨e, he, ha⟩
    exact hsmall x (hr ▸ hx) ((fix_signals_iff x).mp hs)
  · rintro ⟨x, hx, ho⟩
    by_contra hnone
    have hsmall := @records_of_noSignal vars node fun e he ha => hnone ⟨e, he, ha⟩
    obtain ⟨-, hr⟩ := evaluateIn_fix_of_records hsmall
    exact hsmall x (hr ▸ hx) ho

/-! ## Firing the rules -/

theorem fireRules_ok_iff (vars : Value) (rules : List (String × ℕ × Node)) : ∀ triggered riskScore,
    (∃ r, fireRules vars rules triggered riskScore = .ok r) ↔ ∀ rule ∈ rules, ∃ v, evaluate vars rule.2.2 = .ok v := by
  induction rules with
  | nil => intro triggered riskScore; simp [fireRules]
  | cons rule rules ih =>
    intro triggered riskScore
    obtain ⟨code, score, condition⟩ := rule
    simp only [fireRules, List.forall_mem_cons]
    cases hv : evaluate vars condition with
    | error e => simp
    | ok v =>
      simp only [Except.ok.injEq, exists_eq', true_and]
      split
      · exact ih _ _
      · exact ih _ _

/-- A rule of a definition gives a value exactly when it does not signal. -/
theorem rule_ok_iff {d : RuleSetDefinition} {vars : Value} (hc : TypedContext vars) {rule : String × ℕ × Node}
    (hr : rule ∈ d.compiled) :
    (∃ v, evaluate vars rule.2.2 = .ok v) ↔ ∀ x ∈ (evaluateIn atAnySize vars rule.2.2).records, ¬x.Overflows := by
  obtain ⟨source, -, rfl⟩ := List.mem_map.mp hr
  obtain ⟨⟨type, count⟩, hvisit, -⟩ := Except.bind_eq_ok.mp source.condition_ok
  have hsound := SoundnessAux.visit_sound hc hvisit
  have hiff := evaluate_signals_iff vars (normaliseLiteral (.obj source.condition))
  simp only
  cases he : evaluate vars (normaliseLiteral (.obj source.condition)) with
  | ok v =>
    refine ⟨fun _ x hx ho => ?_, fun _ => ⟨v, rfl⟩⟩
    obtain ⟨e, he', -⟩ := hiff.mpr ⟨x, hx, ho⟩
    rw [he] at he'
    cases he'
  | error e =>
    rw [he] at hsound
    constructor
    · rintro ⟨v, hv⟩
      cases hv
    · intro hall
      obtain ⟨x, hx, ho⟩ := hiff.mp ⟨e, he, hsound⟩
      exact absurd ho (hall x hx)

/-! ## The variables of an event -/

theorem normaliseFeatures_ok_iff (features : List (String × Feature)) :
    (∃ entries, normaliseFeatures features = .ok entries) ↔ ∀ f ∈ features, ∃ v, f.2.normalise = .ok v := by
  induction features with
  | nil => simp [normaliseFeatures]
  | cons f features ih =>
    obtain ⟨name, feature⟩ := f
    simp only [normaliseFeatures, List.forall_mem_cons, ← ih]
    cases feature.normalise with
    | error e => simp
    | ok v =>
      simp only [Except.ok_bind, Except.ok.injEq, exists_eq', true_and]
      cases normaliseFeatures features <;> simp

/-- The variables of an event can be built when its minutes can be printed. -/
theorem asVariables_ok_iff (event : TransactionCreatedV1) (priorCount : ℕ) (priorAmount : Decimal) :
    (∃ vars, (EvaluationContext.ofEvent event priorCount priorAmount).asVariables = .ok vars) ↔ PrintsMinutes event := by
  have hfeatures : (∃ vars, (EvaluationContext.ofEvent event priorCount priorAmount).asVariables = .ok vars) ↔
      ∃ entries, normaliseFeatures ((event.enrichment.map Enrichment.modelDump).getD []) = .ok entries := by
    unfold EvaluationContext.asVariables
    simp only [EvaluationContext.ofEvent]
    cases normaliseFeatures ((event.enrichment.map Enrichment.modelDump).getD []) <;> simp
  rw [hfeatures, normaliseFeatures_ok_iff]
  unfold PrintsMinutes
  cases event.enrichment with
  | none => simp
  | some enrichment =>
    simp only [Option.map_some, Option.getD_some, Option.some.injEq, forall_eq']
    constructor
    · intro h minutes hm
      obtain ⟨v, hv⟩ := h ("minutes_since_last_tx", .int minutes) (by simp [Enrichment.modelDump, hm])
      simp only [Feature.normalise] at hv
      split at hv
      · cases hv
      · omega
    · rintro h ⟨name, feature⟩ hf
      cases feature with
      | decimal d => exact ⟨_, rfl⟩
      | bool b => exact ⟨_, rfl⟩
      | int n =>
        have hn : enrichment.minutesSinceLastTx = some n := by
          simp only [Enrichment.modelDump, List.mem_append, Option.mem_toList, Option.map_eq_some_iff, Prod.mk.injEq,
            reduceCtorEq, and_false, exists_false, false_or, or_false] at hf
          obtain ⟨m, hm, -, hmn⟩ := hf
          cases hmn
          exact hm
        have := h n hn
        exact ⟨.num (.ofInt n), by rw [Feature.normalise, if_neg (by omega)]⟩

end ArithmeticAux

open ArithmeticAux

/-- A rule set scores an event, with any velocity, exactly when the event's minutes can be printed and no sum, difference, negation
or product that its rules come to overflows the context. -/
theorem evaluateRuleSet_ok_iff (d : RuleSetDefinition) (event : TransactionCreatedV1) (priorCount : ℕ) (priorAmount : Decimal) :
    (∃ a, evaluateRuleSet d (.ofEvent event priorCount priorAmount) = .ok a) ↔
      PrintsMinutes event ∧
        ∀ vars, (EvaluationContext.ofEvent event priorCount priorAmount).asVariables = .ok vars → StaysInRange d vars := by
  rw [← asVariables_ok_iff event priorCount priorAmount]
  unfold evaluateRuleSet
  cases hvars : (EvaluationContext.ofEvent event priorCount priorAmount).asVariables with
  | error e => simp
  | ok vars =>
    simp only [Except.ok.injEq, exists_eq', true_and, forall_eq']
    have hstays : (∃ r, fireRules vars d.compiled [] 0 = .ok r) ↔ StaysInRange d vars := by
      rw [fireRules_ok_iff]
      exact forall₂_congr fun rule hr => rule_ok_iff (SoundnessAux.ofEvent_typed hvars) hr
    rw [← hstays]
    cases fireRules vars d.compiled [] 0 <;> simp

namespace ArithmeticExample

open Decimal

/-- Multiplying by a large enough power of ten, often enough, overflows. -/
theorem foldDecimals_overflow {k : ℕ} (hk : 0 < k) (n : ℕ) : ∀ {e : ℤ}, 0 ≤ e → e ≤ etop → etop < e + k * n →
    foldDecimals "*" mul ⟨10 ^ 27, e⟩ (List.replicate n ⟨10 ^ k, 0⟩) = .error (.arithmetic "*" .overflow) := by
  induction n with
  | zero =>
    intro e _ hle hlt
    simp only [Nat.cast_zero, mul_zero, add_zero] at hlt
    omega
  | succ n ih =>
    intro e he hle hlt
    have hmul : mul ⟨10 ^ 27, e⟩ ⟨10 ^ k, 0⟩ = fix ⟨10 ^ (27 + k), e⟩ := by
      simp only [mul, mulExact, ← pow_add, add_zero]
    rw [List.replicate_succ, foldDecimals, hmul, fix_pow hk he]
    split
    · rfl
    · rename_i hnot
      simp only [arithmetic, Except.ok_bind]
      refine ih (by omega) (not_lt.mp hnot) ?_
      push_cast at hlt ⊢
      linarith

/-- A whole number of `k + 1` digits. -/
def literal (k : ℕ) : Json := .int (10 ^ k)

/-- For a transaction in dollars, whether a product of `n + 1` of them is positive. -/
def dollars (k n : ℕ) : List (String × Json) := [("and", .arr [
  .obj [("==", .arr [.obj [("var", .str "currency")], .str "USD"])],
  .obj [(">", .arr [.obj [("*", .arr (List.replicate (n + 1) (literal k)))], .int 0])]])]

theorem visit_int {path location : String} {levels count : ℕ} (n : ℤ) (h : count < maxExpressionNodes) :
    visit path (levels + 1) (.int n) location count = .ok (.number, count + 1) := by
  simp only [visit, if_neg (by omega : ¬maxExpressionNodes < count + 1), literalType]

theorem visitEach_literals (path : String) (levels : ℕ) (location : ℕ → String) (k n : ℕ) : ∀ index count,
    count + n ≤ maxExpressionNodes →
      visitEach (visit path (levels + 1)) location index (List.replicate n (literal k)) count =
        .ok (List.replicate n .number, count + n) := by
  induction n with
  | zero => intro index count _; rfl
  | succ n ih =>
    intro index count h
    have hv : visit path (levels + 1) (literal k) (location index) count = .ok (.number, count + 1) :=
      visit_int (10 ^ k) (by omega)
    rw [List.replicate_succ, visitEach, hv]
    simp only [Except.ok_bind, ih (index + 1) (count + 1) (by omega), Except.pure_def, List.replicate_succ]
    congr 2
    omega

theorem require_numbers (location purpose : String) (n : ℕ) : ∀ index,
    require location "*" .number purpose index (List.replicate n .number) = .ok () := by
  induction n with
  | zero => intro index; rfl
  | succ n ih => intro index; simp [List.replicate_succ, require, ih]

/-- An operation is accepted when its arguments are, for types that suit it. -/
theorem visit_operation {path location operator : String} {levels count count' minimum : ℕ} {maximum : Option ℕ}
    {args : List Json} {types : List NodeType} {type : NodeType} (hcount : count < maxExpressionNodes)
    (harity : arity operator = some (minimum, maximum)) (hlo : minimum ≤ args.length) (hhi : ∀ m ∈ maximum, args.length ≤ m)
    (hvar : operator ≠ "var")
    (heach : visitEach (visit path levels) (fun i => location ++ "." ++ operator ++ "[" ++ toString i ++ "]") 0 args
      (count + 1) = .ok (types, count'))
    (htype : operationType location operator types = .ok type) :
    visit path (levels + 1) (.obj [(operator, .arr args)]) location count = .ok (type, count') := by
  have hbounds : ¬(args.length < minimum ∨ ∃ m ∈ maximum, m < args.length) := by
    rintro (h | ⟨m, hm, h⟩)
    · omega
    · have := hhi m hm
      omega
  rw [visit.eq_def]
  simp only [if_neg (by omega : ¬maxExpressionNodes < count + 1), operatorArgs, harity, if_neg hbounds, if_neg hvar, heach,
    Except.ok_bind, htype, Except.pure_def]

theorem product_accepted (path location : String) (levels count k n : ℕ) (h : count + 2 + n ≤ maxExpressionNodes) :
    visit path (levels + 2) (.obj [("*", .arr (List.replicate (n + 1) (literal k)))]) location count =
      .ok (.number, count + 2 + n) := by
  have htype : operationType location "*" (List.replicate (n + 1) .number) = .ok .number := by
    unfold operationType
    rw [if_pos (by decide), require_numbers]
    rfl
  refine visit_operation (by omega) (rfl : arity "*" = some (1, none)) (by simp) (fun m hm => ?_) (by decide) ?_ htype
  · cases hm
  · rw [visitEach_literals path levels _ k (n + 1) 0 (count + 1) (by omega)]
    congr 2
    omega

/-- The check accepts it, when it is not too long. -/
theorem dollars_accepted {k n : ℕ} (h : n + 8 ≤ maxExpressionNodes) :
    validateExpression (.obj (dollars k n)) "condition" = .ok () := by
  have hcurrency : ∀ location, visit "condition" 23 (.obj [("==", .arr [.obj [("var", .str "currency")], .str "USD"])])
      location 1 = .ok (.boolean, 4) := fun location => rfl
  have hpositive : ∀ location, visit "condition" 23 (.obj [(">", .arr [.obj [("*", .arr (List.replicate (n + 1) (literal k)))],
      .int 0])]) location 4 = .ok (.boolean, 8 + n) := by
    intro location
    refine visit_operation (by decide) (rfl : arity ">" = some (2, some 2)) le_rfl (by simp) (by decide) ?_
      (rfl : operationType location ">" [.number, .number] = .ok .boolean)
    simp only [visitEach, product_accepted "condition" _ 20 5 k n (by omega), Except.ok_bind,
      visit_int 0 (by omega : 5 + 2 + n < maxExpressionNodes), Except.pure_def]
    congr 2
    omega
  have hvisit : visit "condition" 24 (.obj (dollars k n)) "condition" 0 = .ok (.boolean, 8 + n) := by
    refine visit_operation (by decide) (rfl : arity "and" = some (1, none)) (Nat.le_add_left 1 1) (fun m hm => ?_) (by decide) ?_
      (rfl : operationType "condition" "and" [.boolean, .boolean] = .ok .boolean)
    · cases hm
    · simp only [visitEach, hcurrency, hpositive, Except.ok_bind]
      rfl
  unfold validateExpression
  rw [show maxExpressionDepth = 24 from rfl, hvisit]
  rfl

/-- A transaction in dollars. -/
def event : TransactionCreatedV1 := { TypeSoundnessExample.event with currency := "USD" }

/-- Its variables. -/
def vars : Value := .dict [
  ("amount", .num ⟨1000000, -2⟩), ("currency", .str "USD"), ("category", .str "GROCERIES"),
  ("velocity", .dict [("prior_count", .num (.ofInt 0)), ("prior_amount", .num (.ofInt 0))]),
  ("enrichment", .dict [("minutes_since_last_tx", .num (.ofInt 12))]), ("country", .str "ZA")]

theorem normaliseItems_literals (k n : ℕ) :
    normaliseItems (List.replicate n (literal k)) = List.replicate n (.num (.ofInt (10 ^ k))) := by
  induction n with
  | zero => rfl
  | succ n ih => rw [List.replicate_succ, List.replicate_succ, normaliseItems, ih]; rfl

theorem collect_literals (k n : ℕ) :
    collect (evaluateEach vars (List.replicate n (.num (.ofInt (10 ^ k))))) =
      .ok (List.replicate n (.num (.ofInt (10 ^ k)))) := by
  induction n with
  | zero => rfl
  | succ n ih =>
    rw [List.replicate_succ, List.replicate_succ, evaluateEach, evaluate, collect, ih]
    rfl

theorem numbers_literals (k n : ℕ) :
    numbers "*" (List.replicate n (.num (.ofInt (10 ^ k)))) = .ok (List.replicate n ⟨10 ^ k, 0⟩) := by
  induction n with
  | zero => rfl
  | succ n ih =>
    rw [List.replicate_succ, numbers, ih]
    rfl

/-- The product overflows, when it is long enough. -/
theorem product_overflows {j n : ℕ} (hj : 0 < j) (hle : (j : ℤ) ≤ etop) (hlt : etop < j + (27 + j : ℕ) * n) :
    evaluate vars (normaliseLiteral (.obj [("*", .arr (List.replicate (n + 1) (literal (27 + j))))])) =
      .error (.arithmetic "*" .overflow) := by
  have hfirst : mul (.ofInt 1) ⟨10 ^ (27 + j), 0⟩ = .ok ⟨10 ^ 27, j⟩ := by
    have hexact : mulExact (.ofInt 1) ⟨10 ^ (27 + j), 0⟩ = ⟨10 ^ (27 + j), 0⟩ := by
      simp only [mulExact, ofInt, one_mul, add_zero]
    rw [mul, hexact, fix_pow hj le_rfl, add_zero, if_neg (not_lt.mpr hle)]
  have hfold : foldDecimals "*" mul (.ofInt 1) (List.replicate (n + 1) ⟨10 ^ (27 + j), 0⟩) =
      .error (.arithmetic "*" .overflow) := by
    rw [List.replicate_succ, foldDecimals, hfirst]
    simp only [arithmetic, Except.ok_bind]
    exact foldDecimals_overflow (by omega) n (by omega) hle hlt
  have happly : ∀ vs, applyOperator "*" vs = multiply vs := fun vs => rfl
  rw [SoundnessAux.evaluate_operation]
  simp only [operatorArgs, normaliseItems_literals]
  rw [SoundnessAux.operate_eager (by decide), collect_literals, Except.ok_bind, happly, multiply, numbers_literals,
    Except.ok_bind, hfold]
  rfl

/-- And so does the condition. -/
theorem dollars_overflows {j n : ℕ} (hj : 0 < j) (hle : (j : ℤ) ≤ etop) (hlt : etop < j + (27 + j : ℕ) * n) :
    evaluate vars (normaliseLiteral (.obj (dollars (27 + j) n))) = .error (.arithmetic "*" .overflow) := by
  have hpositive : evaluate vars (normaliseLiteral (.obj [(">", .arr [.obj [("*", .arr (List.replicate (n + 1)
      (literal (27 + j))))], .int 0])])) = .error (.arithmetic "*" .overflow) := by
    rw [SoundnessAux.evaluate_operation, SoundnessAux.operate_eager (by decide)]
    simp only [operatorArgs, normaliseItems, evaluateEach, product_overflows hj hle hlt, collect, Except.error_bind]
  have hcurrency : evaluate vars (normaliseLiteral (.obj [("==", .arr [.obj [("var", .str "currency")], .str "USD"])])) =
      .ok (.bool true) := rfl
  rw [dollars, SoundnessAux.evaluate_operation]
  simp only [operate, operatorArgs, normaliseItems, evaluateEach, hpositive, hcurrency, allTruthy, Value.truthy,
    String.reduceEq, if_true, if_false, Except.ok_bind, Except.error_bind]

theorem code_ok : codePattern "DOLLARS" = true := by decide

theorem description_ok : 1 ≤ "Any amount in dollars.".length ∧ "Any amount in dollars.".length ≤ 500 := by decide

theorem score_ok : 40 ≤ 1000 := by decide

theorem factors_ok : 232 + 8 ≤ maxExpressionNodes := by decide

/-- The rule on dollars. -/
def rule (k : ℕ) : RuleDefinition :=
  ⟨"DOLLARS", "Any amount in dollars.", 40, dollars k 232, code_ok, description_ok, score_ok, dollars_accepted factors_ok⟩

theorem rules_ok (k : ℕ) : 1 ≤ [rule k].length ∧ [rule k].length ≤ 50 := by simp

theorem codes_ok (k : ℕ) : ([rule k].map (·.code)).Nodup := by simp

/-- The rule set of that rule. -/
def definition (k : ℕ) : RuleSetDefinition where
  velocityWindowSeconds := 60
  reviewThreshold := 30
  rejectThreshold := 75
  rules := [rule k]
  window_ok := RoundTripExample.whole.window_ok
  review_ok := RoundTripExample.whole.review_ok
  reject_ok := RoundTripExample.whole.reject_ok
  rules_ok := rules_ok k
  codes_ok := codes_ok k
  ordered_ok := RoundTripExample.whole.ordered_ok

/-- Its request body. -/
def body (k : ℕ) : Json := StoredAux.storedDefinition (definition k) [StoredAux.storedRule (rule k) (.obj (rule k).condition)]

/-- The dry run is in rand, and stops before the product. -/
theorem body_accepted (k : ℕ) : parseRuleSetDefinition RoundTripExample.interpreter (body k) = .ok (definition k) := by
  have hvalid : modelValidate RoundTripExample.interpreter (body k) = .ok (definition k) :=
    StoredAux.modelValidate_storedDefinition RoundTripExample.interpreter (definition k)
  have hrun : evaluateRuleSet (definition k) dryRunContext = .ok ⟨[], 0, .approved⟩ := rfl
  unfold parseRuleSetDefinition
  rw [hvalid]
  simp only [hrun]

end ArithmeticExample

open ArithmeticExample in
/-- A rule set of 233 factors of 4300 digits is accepted, its dry run passed, and fails on a transaction in dollars. -/
theorem evaluateRuleSet_ok_false :
    parseRuleSetDefinition RoundTripExample.interpreter (body 4299) = .ok (definition 4299) ∧
      ¬∃ a, evaluateRuleSet (definition 4299) (.ofEvent event 0 (.ofInt 0)) = .ok a := by
  refine ⟨body_accepted 4299, ?_⟩
  rintro ⟨a, ha⟩
  have hvars : (EvaluationContext.ofEvent event 0 (.ofInt 0)).asVariables = .ok vars := rfl
  have hcondition : evaluate vars (normaliseLiteral (.obj (dollars 4299 232))) = .error (.arithmetic "*" .overflow) :=
    @dollars_overflows 4272 232 (by decide) (by decide) (by decide)
  unfold evaluateRuleSet at ha
  rw [hvars] at ha
  simp only [RuleSetDefinition.compiled, definition, rule, List.map_cons, fireRules, hcondition] at ha
  cases ha

/-- Where evaluation gives a value, it is exact arithmetic exactly when all the results that exact arithmetic comes to fit the
context. -/
theorem evaluatesExactly_iff {vars : Value} {condition : Json} {v : Value}
    (h : evaluate vars (normaliseLiteral condition) = .ok v) :
    EvaluatesExactly vars (normaliseLiteral condition) v ↔
      ∀ x ∈ (evaluateIn exactly vars (normaliseLiteral condition)).records, x.Fits := by
  constructor
  · rintro ⟨hr, -⟩ x hx
    obtain ⟨i, hi, rfl⟩ := List.mem_iff_getElem.mp hx
    obtain ⟨z, hz, hsame⟩ := hr.get hi (hr.length_eq ▸ hi)
    rw [Decimal.fix_eq] at hz
    split at hz
    · cases hz
    · -- a rounded number fits, and the exact one has its value
      cases hz
      exact (Decimal.fits_congr hsame).mpr (Decimal.rounded_fits _)
  · intro hfits
    have hsmall := @records_of_noSignal vars (normaliseLiteral condition) fun e he => by
      rw [h] at he
      cases he
    obtain ⟨hv, hr⟩ := evaluateIn_fix_of_records hsmall
    obtain ⟨hvalue, hrecords⟩ := evaluateIn_follows respects_sameNumber vars (normaliseLiteral condition)
      fun x hx => agree_exactly (hfits x hx)
    rw [evaluateIn_fix, h] at hv
    rw [← hv] at hvalue
    rw [← hr] at hrecords
    constructor
    · refine List.forall₂_iff_get.mpr ⟨hrecords.length_eq, fun i hi hi' => ?_⟩
      have hsame := hrecords.get hi hi'
      have hy : (Decimal.Fits _) := (Decimal.fits_congr hsame).mp (hfits _ (List.get_mem _ _))
      refine ⟨_, by rw [Decimal.fix_eq, if_neg (hsmall _ (List.get_mem _ _))], ?_⟩
      exact Eq.trans hsame ((Decimal.rounded_toRat_iff _).mpr hy).symm
    · cases hw : (evaluateIn exactly vars (normaliseLiteral condition)).value with
      | error e => rw [hw] at hvalue; exact hvalue.elim
      | ok w =>
        rw [hw] at hvalue
        exact ⟨w, rfl, hvalue⟩

namespace ExactExample

/-- Whether twice the amount is above 100. -/
def doubled : Json := .obj [(">", .arr [.obj [("*", .arr [.obj [("var", .str "amount")], .int 2])], .int 100])]

theorem doubled_value : evaluate TypeSoundnessExample.vars (normaliseLiteral doubled) = .ok (.bool true) := rfl

/-- Whether the square of the amount is above a threshold. -/
def squared : Json := .obj [(">", .arr [.obj [("*", .arr [.obj [("var", .str "amount")], .obj [("var", .str "amount")]])],
  .int 99999999999999999800000000000000])]

/-- A transaction of 9999999999999999.99, the largest amount. -/
def event : TransactionCreatedV1 where
  transactionId := ⟨1⟩
  userId := ⟨2⟩
  amount := ⟨⟨⟨999999999999999999, -2⟩, 999999999999999999, by decide, by norm_num [Decimal.toRat]⟩,
    by norm_num [Decimal.toRat]⟩
  currency := "ZAR"
  category := "GROCERIES"
  occurredAt := 0
  channel := none
  country := none
  correlationId := none
  enrichment := none

/-- Its variables, the first of its user. -/
def vars : Value := .dict [
  ("amount", .num ⟨999999999999999999, -2⟩), ("currency", .str "ZAR"), ("category", .str "GROCERIES"),
  ("velocity", .dict [("prior_count", .num (.ofInt 0)), ("prior_amount", .num (.ofInt 0))]), ("enrichment", .dict [])]

end ExactExample

open ExactExample in
/-- The double of 10000.00, which has few digits. -/
theorem evaluatesExactly_iff_doubled :
    EvaluatesExactly TypeSoundnessExample.vars (normaliseLiteral doubled) (.bool true) ↔
      ∀ x ∈ (evaluateIn exactly TypeSoundnessExample.vars (normaliseLiteral doubled)).records, x.Fits :=
  evaluatesExactly_iff doubled_value

open ExactExample in
/-- The square of the largest amount has 36 digits: it is above the threshold, which rounding brings it down to. -/
theorem evaluatesExactly_false :
    validateExpression squared "condition" = .ok () ∧
      (EvaluationContext.ofEvent event 0 (.ofInt 0)).asVariables = .ok vars ∧
      evaluate vars (normaliseLiteral squared) = .ok (.bool false) ∧
      (evaluateIn exactly vars (normaliseLiteral squared)).value = .ok (.bool true) :=
  ⟨rfl, rfl, rfl, rfl⟩

end FraudDetection
