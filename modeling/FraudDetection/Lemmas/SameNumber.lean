import FraudDetection.Lemmas.Arithmetic

/-!
# Conditions see the value of a number alone

`49.90` and `49.9` are two decimals of one value. A rule set decides the same of both: rounding, comparison and truth depend on the
value (`visit_alike`), and a condition that was accepted reads declared variables only, of which an amount is one
(`evaluateRuleSet_amount`).
-/

namespace FraudDetection

namespace SameNumberAux

open ArithmeticAux SoundnessAux

/-- The context's rounding agrees with itself on two numbers of one value. -/
theorem agree_fix (x : Decimal) : Agree SameNumber Decimal.fix Decimal.fix x := by
  intro y hy
  have hover := Decimal.overflows_congr hy
  rw [Decimal.fix_eq, Decimal.fix_eq]
  by_cases h : x.Overflows
  · rw [if_pos h, if_pos (hover.mp h)]
    rfl
  · rw [if_neg h, if_neg fun h' => h (hover.mpr h')]
    exact Decimal.rounded_congr hy

/-- Two evaluations end alike: in the same error, or in values that differ at most in how a number is written. -/
abbrev EndsAlike (r r' : Except EvaluationError Value) : Prop := r.Related (Alike SameNumber) r'

/-- An operation on arguments that end alike ends alike. -/
theorem operate_alike {context context' : Value} {operator : String} {args : List Node}
    {rs rs' : List (Except EvaluationError Value)} (h : List.Forall₂ EndsAlike rs rs')
    (hc : ∀ name rest, operator = "var" → args = .str name :: rest →
      Option.Rel (Alike SameNumber) (lookupVariable context name) (lookupVariable context' name)) :
    EndsAlike (operate context operator args rs) (operate context' operator args rs') := by
  have hlift : List.Forall₂ (Follows SameNumber Decimal.fix Decimal.fix (Alike SameNumber))
      (rs.map Traced.lift) (rs'.map Traced.lift) := by
    rw [List.forall₂_map_left_iff, List.forall₂_map_right_iff]
    exact h.imp fun _ _ hr => Traced.Simulates.lift hr
  have hvalue : ∀ rs : List (Except EvaluationError Value),
      (rs.map fun r => (Traced.lift r : Computation Value)).map Traced.value = rs := by
    intro rs
    rw [List.map_map]
    exact List.map_id rs
  obtain ⟨hr, -⟩ := operateIn_follows hlift respects_sameNumber operator args hc fun x _ => agree_fix x
  rwa [operateIn_fix, operateIn_fix, hvalue, hvalue] at hr

theorem collect_alike {rs rs' : List (Except EvaluationError Value)} (h : List.Forall₂ EndsAlike rs rs') :
    EndsAlike (do return .list (← collect rs)) (do return .list (← collect rs')) := by
  have hitems : (collect rs).Related (List.Forall₂ (Alike SameNumber)) (collect rs') := by
    induction h with
    | nil => exact List.Forall₂.nil
    | @cons r r' rs rs' hr _ ih =>
      unfold collect
      cases r <;> cases r' <;> try exact hr.elim
      · exact hr
      · simp only [Except.ok_bind]
        cases hc : collect rs <;> cases hc' : collect rs' <;> rw [hc, hc'] at ih <;> try exact ih.elim
        · exact ih
        · exact List.Forall₂.cons hr ih
  cases hc : collect rs <;> cases hc' : collect rs' <;> rw [hc, hc'] at hitems <;> try exact hitems.elim
  · exact hitems
  · exact alikeItems_iff.mpr hitems

/-! ## Conditions -/

/-- Two contexts give every declared variable the same value, up to how its number is written. -/
def SameVariables (context context' : Value) : Prop :=
  ∀ name declared, variableNamed name = some declared →
    Option.Rel (Alike SameNumber) (lookupVariable context name) (lookupVariable context' name)

/-- A literal ends alike: it reads no variable. -/
theorem literal_alike (context context' : Value) {node : Json} (h : IsLiteral node) :
    EndsAlike (evaluate context (normaliseLiteral node)) (evaluate context' (normaliseLiteral node)) := by
  cases node with
  | null => trivial
  | bool b => exact rfl
  | int n => exact rfl
  | str s => exact rfl
  | lone s => exact rfl
  | float f =>
    cases f with
    | finite f => exact rfl
    | inf neg => cases h
    | nan => cases h
  | arr items => exact h.elim
  | obj entries => exact h.elim

/-- What `visit` accepts ends alike in two contexts of the same variables: by induction on the levels of nesting. -/
theorem visit_alike {context context' : Value} (hc : SameVariables context context') {path : String} {levels : ℕ} :
    ∀ {node : Json} {location : String} {count count' : ℕ} {type : NodeType},
      visit path levels node location count = .ok (type, count') →
      EndsAlike (evaluate context (normaliseLiteral node)) (evaluate context' (normaliseLiteral node)) := by
  induction levels with
  | zero =>
    intro _ _ _ _ _ h
    obtain ⟨_, hl, -⟩ := visit_cases h
    cases hl
  | succ levels ih =>
    intro node location count count' type h
    obtain ⟨l, hl, h⟩ := visit_cases h
    cases hl
    have each : ∀ {items : List Json},
        (∀ item ∈ items, EndsAlike (evaluate context (normaliseLiteral item)) (evaluate context' (normaliseLiteral item))) →
        List.Forall₂ EndsAlike (evaluateEach context (normaliseItems items)) (evaluateEach context' (normaliseItems items)) := by
      intro items hitems
      rwa [evaluateEach_normaliseItems, evaluateEach_normaliseItems, List.forall₂_map_left_iff, List.forall₂_map_right_iff,
        List.forall₂_same]
    have visited : ∀ {items : List Json} {types : List NodeType} {loc : ℕ → String} {count count' : ℕ},
        visitEach (visit path levels) loc 0 items count = .ok (types, count') →
        ∀ item ∈ items, EndsAlike (evaluate context (normaliseLiteral item)) (evaluate context' (normaliseLiteral item)) := by
      intro items types loc count count' hv item hm
      obtain ⟨i, hi, rfl⟩ := List.mem_iff_getElem.mp hm
      have hall := visitEach_ok hv
      obtain ⟨_, _, _, ht⟩ := hall.get hi (hall.length_eq ▸ hi)
      exact ih ht
    rcases h with ⟨items, types, loc, rfl, hv, -, -⟩ | ⟨operator, raw, lo, hi, rfl, har, -, hhi, hv⟩ | ⟨hn, -⟩
    · exact collect_alike (each (visited hv))
    · rw [evaluate_operation, evaluate_operation]
      rcases hv with ⟨rfl, hv⟩ | ⟨hne, types, loc, hv, -⟩
      · obtain ⟨name, declared, rest, ha, hdecl, -, hrest⟩ := checkVariable_ok hv
        have hdefault : ∀ item ∈ rest,
            EndsAlike (evaluate context (normaliseLiteral item)) (evaluate context' (normaliseLiteral item)) := by
          intro item hm
          rcases hrest with ⟨rfl, -⟩ | ⟨default, more, rfl, _, _, _, hdef⟩
          · cases hm
          · -- a variable takes one default at most
            have hlen := hhi 2 ((arity_cases har).2.2.2 rfl)
            rw [ha, List.length_cons, List.length_cons] at hlen
            have hmore : more = [] := List.eq_nil_of_length_eq_zero (by omega)
            rw [hmore, List.mem_singleton] at hm
            exact hm ▸ ih hdef
        rw [ha]
        refine operate_alike (each (List.forall_mem_cons.mpr ⟨rfl, hdefault⟩)) ?_
        intro name' rest' _ hargs
        cases hargs
        exact hc name declared hdecl
      · refine operate_alike (each (visited hv)) ?_
        intro _ _ hvar
        exact absurd hvar hne
    · exact literal_alike context context' hn

/-- Rules that end alike fire alike. -/
theorem fireRules_alike {vars vars' : Value} {rules : List (String × ℕ × Node)}
    (h : ∀ rule ∈ rules, EndsAlike (evaluate vars rule.2.2) (evaluate vars' rule.2.2)) :
    ∀ triggered riskScore, fireRules vars rules triggered riskScore = fireRules vars' rules triggered riskScore := by
  induction rules with
  | nil => intro triggered riskScore; rfl
  | cons rule rules ih =>
    intro triggered riskScore
    obtain ⟨code, score, condition⟩ := rule
    obtain ⟨hcondition, hrules⟩ := List.forall_mem_cons.mp h
    simp only at hcondition
    unfold fireRules
    cases hr : evaluate vars condition <;> cases hr' : evaluate vars' condition <;> rw [hr, hr'] at hcondition <;>
      try exact hcondition.elim
    · rw [show _ = _ from hcondition]
    · simp only [truthy_alike respects_sameNumber hcondition]
      split
      · exact ih hrules _ _
      · exact ih hrules _ _

/-- The rules of a definition, which were accepted, fire alike in two contexts of the same variables. -/
theorem compiled_alike {vars vars' : Value} (h : SameVariables vars vars') (d : RuleSetDefinition) (triggered : List String)
    (riskScore : ℕ) : fireRules vars d.compiled triggered riskScore = fireRules vars' d.compiled triggered riskScore := by
  refine fireRules_alike (fun rule hr => ?_) triggered riskScore
  obtain ⟨source, -, rfl⟩ := List.mem_map.mp hr
  obtain ⟨⟨type, count⟩, hvisit, -⟩ := Except.bind_eq_ok.mp source.condition_ok
  exact visit_alike h hvisit

/-! ## An amount -/

/-- Every declared variable but the amount is looked up past the amount. -/
theorem lookup_amount (amount amount' : Value) {entries : List (String × Value)} {name : String} (hname : name ≠ "amount")
    {declared : Variable} (hd : variableNamed name = some declared) :
    lookupVariable (.dict (("amount", amount) :: entries)) name = lookupVariable (.dict (("amount", amount') :: entries)) name := by
  have hfirst : ∀ d ∈ declaredVariables, d.1 ≠ "amount" →
      splitDots d.1.toList ≠ [] ∧ (splitDots d.1.toList).head?.map String.ofList ≠ some "amount" := by
    decide
  obtain ⟨hcons, hhead⟩ := hfirst _ (variableNamed_mem hd) hname
  simp only at hcons hhead
  unfold lookupVariable
  cases hs : splitDots name.toList with
  | nil => exact absurd hs hcons
  | cons part parts =>
    have hne : "amount" ≠ String.ofList part := by
      rintro heq
      rw [hs, heq] at hhead
      exact hhead rfl
    simp only [lookupParts, Value.get?, if_neg hne]

/-- Two amounts of one value make the same variables. -/
theorem sameVariables_amount {amount amount' : Decimal} (h : SameNumber amount amount') (entries : List (String × Value)) :
    SameVariables (.dict (("amount", .num amount) :: entries)) (.dict (("amount", .num amount') :: entries)) := by
  intro name declared hd
  by_cases hname : name = "amount"
  · subst hname
    rw [lookup_plain (by decide), lookup_plain (by decide)]
    simp only [Value.get?, if_true]
    exact .some h
  · rw [lookup_amount (.num amount) (.num amount') hname hd]
    exact lookup_refl respects_sameNumber _ _

end SameNumberAux

open SameNumberAux

/-- A rule set decides the same of two transactions that differ only in how their amount is written. -/
theorem evaluateRuleSet_amount (d : RuleSetDefinition) (context : EvaluationContext) {amount : Decimal}
    (h : SameNumber context.amount amount) :
    evaluateRuleSet d { context with amount := amount } = evaluateRuleSet d context := by
  unfold evaluateRuleSet EvaluationContext.asVariables
  cases normaliseFeatures context.enrichment with
  | error e => rfl
  | ok enrichment =>
    simp only [Except.ok_bind, Except.pure_def, List.cons_append]
    rw [compiled_alike (sameVariables_amount h _)]

end FraudDetection
