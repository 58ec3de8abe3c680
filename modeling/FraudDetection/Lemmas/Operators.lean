import FraudDetection.Lemmas.Visit

/-!
# The operators, on arguments of the types the check accepts

One lemma per operator: given values of the types its arguments were checked to have, it gives a value of the type the check
gave the operation, or stops at a decimal signal.
-/

namespace FraudDetection

namespace SoundnessAux

/-! ## Canonical forms -/

theorem bool_of_hasType {v : Value} (h : HasType v .boolean) : ∃ b, v = .bool b := by
  cases h with
  | bool b => exact ⟨b, rfl⟩

theorem num_of_hasType {v : Value} (h : HasType v .number) : ∃ d, v = .num d := by
  cases h with
  | num d => exact ⟨d, rfl⟩

/-! ## Evaluating several arguments -/

/-- Collecting sound results gives values of their types, or an arithmetic error. -/
theorem collect_sound {rs : List (Except EvaluationError Value)} {types : List NodeType} (h : List.Forall₂ Sound rs types) :
    (∃ vs, collect rs = .ok vs ∧ List.Forall₂ HasType vs types) ∨ ∃ e, collect rs = .error e ∧ e.IsArithmetic := by
  induction h with
  | nil => exact Or.inl ⟨[], rfl, .nil⟩
  | @cons r type rs types hr _ ih =>
    cases r with
    | error e => exact Or.inr ⟨e, rfl, hr⟩
    | ok v =>
      rcases ih with ⟨vs, hvs, ht⟩ | ⟨e, he, ha⟩
      · exact Or.inl ⟨v :: vs, by simp [collect, hvs], .cons hr ht⟩
      · exact Or.inr ⟨e, by simp [collect, he], ha⟩

/-- `all(...)` over sound conditions gives a boolean, or an arithmetic error. -/
theorem allTruthy_sound {rs : List (Except EvaluationError Value)} (h : ∀ r ∈ rs, Sound r .boolean) :
    (∃ b, allTruthy rs = .ok b) ∨ ∃ e, allTruthy rs = .error e ∧ e.IsArithmetic := by
  induction rs with
  | nil => exact Or.inl ⟨true, rfl⟩
  | cons r rs ih =>
    have hr := h r (by simp)
    have ih := ih fun r hr => h r (by simp [hr])
    cases r with
    | error e => exact Or.inr ⟨e, rfl, hr⟩
    | ok v =>
      by_cases hv : v.truthy
      · simpa [allTruthy, hv] using ih
      · exact Or.inl ⟨false, by simp [allTruthy, hv]⟩

/-- `any(...)` over sound conditions gives a boolean, or an arithmetic error. -/
theorem anyTruthy_sound {rs : List (Except EvaluationError Value)} (h : ∀ r ∈ rs, Sound r .boolean) :
    (∃ b, anyTruthy rs = .ok b) ∨ ∃ e, anyTruthy rs = .error e ∧ e.IsArithmetic := by
  induction rs with
  | nil => exact Or.inl ⟨false, rfl⟩
  | cons r rs ih =>
    have hr := h r (by simp)
    have ih := ih fun r hr => h r (by simp [hr])
    cases r with
    | error e => exact Or.inr ⟨e, rfl, hr⟩
    | ok v =>
      by_cases hv : v.truthy
      · exact Or.inl ⟨true, by simp [anyTruthy, hv]⟩
      · simpa [anyTruthy, hv] using ih

/-! ## The eager operators -/

/-- Numbers are numbers to `_numbers`. -/
theorem numbers_of_hasType (operator : String) {vs : List Value} (h : ∀ v ∈ vs, HasType v .number) :
    ∃ ds, numbers operator vs = .ok ds ∧ ds.length = vs.length := by
  induction vs with
  | nil => exact ⟨[], rfl, rfl⟩
  | cons v vs ih =>
    obtain ⟨d, rfl⟩ := num_of_hasType (h v (by simp))
    obtain ⟨ds, hds, hl⟩ := ih fun v hv => h v (by simp [hv])
    refine ⟨d :: ds, ?_, by simp [hl]⟩
    simp [numbers, toDecimal, hds]

/-- A decimal operation gives a number or an arithmetic error, under an operator that can signal. -/
theorem arithmetic_sound (operator : String) (ho : operator ∈ ["+", "-", "*"]) (r : Except Decimal.Signal Decimal) :
    (∃ d, arithmetic operator r = .ok d) ∨ ∃ e, arithmetic operator r = .error e ∧ e.IsArithmetic := by
  cases r with
  | ok d => exact Or.inl ⟨d, rfl⟩
  | error s => exact Or.inr ⟨_, rfl, ho⟩

theorem foldDecimals_sound (operator : String) (ho : operator ∈ ["+", "-", "*"])
    (op : Decimal → Decimal → Except Decimal.Signal Decimal) (ds : List Decimal) :
    ∀ acc, (∃ d, foldDecimals operator op acc ds = .ok d) ∨
      ∃ e, foldDecimals operator op acc ds = .error e ∧ e.IsArithmetic := by
  induction ds with
  | nil => intro acc; exact Or.inl ⟨acc, rfl⟩
  | cons d ds ih =>
    intro acc
    rcases arithmetic_sound operator ho (op acc d) with ⟨d', hd'⟩ | ⟨e, he, ha⟩
    · simpa [foldDecimals, hd'] using ih d'
    · exact Or.inr ⟨e, by simp [foldDecimals, he], ha⟩

/-- A comparison of numbers gives a boolean. -/
theorem compare_sound (operator : String) (check : Decimal → Decimal → Bool) {vs : List Value}
    (h : ∀ v ∈ vs, HasType v .number) : Sound (compare operator check vs) .boolean := by
  obtain ⟨ds, hds, -⟩ := numbers_of_hasType operator h
  simp only [compare, hds, Except.ok_bind, Except.pure_def]
  exact HasType.bool _

theorem sum_sound {vs : List Value} (h : ∀ v ∈ vs, HasType v .number) : Sound (sum vs) .number := by
  obtain ⟨ds, hds, -⟩ := numbers_of_hasType "+" h
  rcases foldDecimals_sound "+" (by simp) Decimal.add ds (.ofInt 0) with ⟨d, hd⟩ | ⟨e, he, ha⟩
  · simp only [sum, hds, hd, Except.ok_bind, Except.pure_def]
    exact HasType.num d
  · simp only [sum, hds, he, Except.ok_bind, Except.error_bind]
    exact ha

theorem multiply_sound {vs : List Value} (h : ∀ v ∈ vs, HasType v .number) : Sound (multiply vs) .number := by
  obtain ⟨ds, hds, -⟩ := numbers_of_hasType "*" h
  rcases foldDecimals_sound "*" (by simp) Decimal.mul ds (.ofInt 1) with ⟨d, hd⟩ | ⟨e, he, ha⟩
  · simp only [multiply, hds, hd, Except.ok_bind, Except.pure_def]
    exact HasType.num d
  · simp only [multiply, hds, he, Except.ok_bind, Except.error_bind]
    exact ha

theorem subtract_sound {vs : List Value} (h : ∀ v ∈ vs, HasType v .number) (hne : vs ≠ []) :
    Sound (subtract vs) .number := by
  obtain ⟨ds, hds, hl⟩ := numbers_of_hasType "-" h
  have hpos : ds ≠ [] := by
    intro hnil
    rw [hnil] at hl
    exact hne (List.eq_nil_of_length_eq_zero hl.symm)
  match ds, hpos with
  | [a], _ =>
    rcases arithmetic_sound "-" (by simp) a.neg with ⟨d, hd⟩ | ⟨e, he, ha⟩
    · simp only [subtract, hds, hd, Except.ok_bind, Except.pure_def]
      exact HasType.num d
    · simp only [subtract, hds, he, Except.ok_bind, Except.error_bind]
      exact ha
  | a :: b :: rest, _ =>
    rcases arithmetic_sound "-" (by simp) (a.sub b) with ⟨d, hd⟩ | ⟨e, he, ha⟩
    · simp only [subtract, hds, hd, Except.ok_bind, Except.pure_def]
      exact HasType.num d
    · simp only [subtract, hds, he, Except.ok_bind, Except.error_bind]
      exact ha

theorem extremum_sound (operator : String) (better : Decimal → Decimal → Bool) {vs : List Value}
    (h : ∀ v ∈ vs, HasType v .number) (hne : vs ≠ []) : Sound (extremum operator better vs) .number := by
  obtain ⟨ds, hds, hl⟩ := numbers_of_hasType operator h
  cases ds with
  | nil => exact absurd (List.eq_nil_of_length_eq_zero hl.symm) hne
  | cons d ds =>
    simp only [extremum, hds, Except.ok_bind, Except.pure_def]
    exact HasType.num _

/-- Looking for a value in text or in a list gives a boolean. -/
theorem membership_sound (needle : Value) {haystack : Value} {type : NodeType} (h : HasType haystack type)
    (ht : type = .text ∨ type = .emptyList ∨ ∃ element, type = .list element) :
    Sound (membership needle haystack) .boolean := by
  cases h with
  | str s => cases needle <;> exact HasType.bool _
  | lone s => cases needle <;> exact HasType.bool _
  | emptyList => exact HasType.bool _
  | list hne hall => exact HasType.bool _
  | null => rcases ht with h | h | ⟨_, h⟩ <;> cases h
  | bool b => rcases ht with h | h | ⟨_, h⟩ <;> cases h
  | num d => rcases ht with h | h | ⟨_, h⟩ <;> cases h

/-! ## Operations -/

/-- The argument types `require` accepts. -/
theorem require_ok {location operator purpose : String} {expected : NodeType} {types : List NodeType} :
    ∀ {index : ℕ}, require location operator expected purpose index types = .ok () → ∀ type ∈ types, type = expected := by
  induction types with
  | nil => intro _ _ type h; simp at h
  | cons actual types ih =>
    intro index h
    simp only [require] at h
    split at h
    · cases h
    · rename_i heq
      intro type ht
      rcases List.mem_cons.mp ht with rfl | ht
      · exact not_not.mp heq
      · exact ih h type ht

/-- Of two related lists, when every element of the second is `b`, every element of the first is related to `b`. -/
theorem forall₂_const {α β : Type} {R : α → β → Prop} {as : List α} {bs : List β} {b : β} (h : List.Forall₂ R as bs)
    (hb : ∀ b' ∈ bs, b' = b) : ∀ a ∈ as, R a b := by
  induction h with
  | nil => intro a ha; simp at ha
  | @cons a b' as bs hr _ ih =>
    intro a' ha'
    rcases List.mem_cons.mp ha' with rfl | ha'
    · exact hb b' (by simp) ▸ hr
    · exact ih (fun b'' hb'' => hb b'' (by simp [hb''])) a' ha'

/-- An eager operation is sound when its implementation is, on values of the argument types. -/
theorem applyOperator_sound {operator : String} {implementation : List Value → Except EvaluationError Value}
    {rs : List (Except EvaluationError Value)} {types : List NodeType} {type : NodeType}
    (hf : ∀ vs, applyOperator operator vs = implementation vs) (h : List.Forall₂ Sound rs types)
    (hi : ∀ vs, List.Forall₂ HasType vs types → Sound (implementation vs) type) :
    Sound (do applyOperator operator (← collect rs)) type := by
  rcases collect_sound h with ⟨vs, hvs, ht⟩ | ⟨e, he, ha⟩
  · simp only [hvs, bind, Except.bind, hf]
    exact hi vs ht
  · simp only [he, Except.error_bind]
    exact ha

/-- `operate` on an operator that is not lazy. -/
theorem operate_eager {context : Value} {operator : String} {args : List Node}
    {rs : List (Except EvaluationError Value)} (h : operator ∉ ["var", "and", "or", "if"]) :
    operate context operator args rs = (do applyOperator operator (← collect rs)) := by
  simp only [List.mem_cons, List.not_mem_nil, or_false, not_or] at h
  simp only [operate, h, if_false]

/-- A numeric operation on arguments of type number. -/
theorem numeric_sound {context : Value} {operator : String} {args : List Node} {rs : List (Except EvaluationError Value)}
    {types : List NodeType} (ho : operator ∈ [">", ">=", "<", "<=", "+", "-", "*", "min", "max"]) (hne : types ≠ [])
    (hn : ∀ t ∈ types, t = NodeType.number) (h : List.Forall₂ Sound rs types) :
    Sound (operate context operator args rs)
      (if operator ∈ [">", ">=", "<", "<="] then NodeType.boolean else NodeType.number) := by
  have hv : ∀ vs, List.Forall₂ HasType vs types → (∀ v ∈ vs, HasType v .number) ∧ vs ≠ [] := by
    intro vs ht
    refine ⟨forall₂_const ht hn, ?_⟩
    rintro rfl
    exact hne (List.forall₂_nil_left_iff.mp ht)
  simp only [List.mem_cons, List.not_mem_nil, or_false] at ho
  rcases ho with rfl | rfl | rfl | rfl | rfl | rfl | rfl | rfl | rfl <;> rw [operate_eager (by decide)] <;>
    simp only [List.mem_cons, List.not_mem_nil, or_false, String.reduceEq, or_true, or_self, if_true, if_false]
  · exact applyOperator_sound (fun _ => rfl) h fun vs ht => compare_sound _ _ (hv vs ht).1
  · exact applyOperator_sound (fun _ => rfl) h fun vs ht => compare_sound _ _ (hv vs ht).1
  · exact applyOperator_sound (fun _ => rfl) h fun vs ht => compare_sound _ _ (hv vs ht).1
  · exact applyOperator_sound (fun _ => rfl) h fun vs ht => compare_sound _ _ (hv vs ht).1
  · exact applyOperator_sound (fun _ => rfl) h fun vs ht => sum_sound (hv vs ht).1
  · exact applyOperator_sound (fun _ => rfl) h fun vs ht => subtract_sound (hv vs ht).1 (hv vs ht).2
  · exact applyOperator_sound (fun _ => rfl) h fun vs ht => multiply_sound (hv vs ht).1
  · exact applyOperator_sound (fun _ => rfl) h fun vs ht => extremum_sound _ _ (hv vs ht).1 (hv vs ht).2
  · exact applyOperator_sound (fun _ => rfl) h fun vs ht => extremum_sound _ _ (hv vs ht).1 (hv vs ht).2

/-- A logical operation on arguments of type boolean. -/
theorem logical_sound {context : Value} {operator : String} {args : List Node} {rs : List (Except EvaluationError Value)}
    {types : List NodeType} (ho : operator ∈ ["and", "or", "!"]) (hone : operator = "!" → types.length = 1)
    (hb : ∀ t ∈ types, t = NodeType.boolean) (h : List.Forall₂ Sound rs types) :
    Sound (operate context operator args rs) .boolean := by
  have hr : ∀ r ∈ rs, Sound r .boolean := forall₂_const h hb
  simp only [List.mem_cons, List.not_mem_nil, or_false] at ho
  rcases ho with rfl | rfl | rfl
  · simp only [operate, String.reduceEq, if_false, if_true]
    rcases allTruthy_sound hr with ⟨b, hb⟩ | ⟨e, he, ha⟩
    · simp only [hb, Except.ok_bind, Except.pure_def]
      exact HasType.bool b
    · simp only [he, Except.error_bind]
      exact ha
  · simp only [operate, String.reduceEq, if_false, if_true]
    rcases anyTruthy_sound hr with ⟨b, hb⟩ | ⟨e, he, ha⟩
    · simp only [hb, Except.ok_bind, Except.pure_def]
      exact HasType.bool b
    · simp only [he, Except.error_bind]
      exact ha
  · rw [operate_eager (by decide)]
    refine applyOperator_sound (fun _ => rfl) h fun vs ht => ?_
    have hl : vs.length = 1 := ht.length_eq.trans (hone rfl)
    obtain ⟨v, rfl⟩ := List.length_eq_one_iff.mp hl
    exact HasType.bool _

/-- `if` evaluates its condition and then only the branch it takes; both branches have the result's type. -/
theorem if_sound {context : Value} {args : List Node} {rs : List (Except EvaluationError Value)} {type : NodeType}
    (h : List.Forall₂ Sound rs [.boolean, type, type]) : Sound (operate context "if" args rs) type := by
  match rs, h with
  | [c, t, f], .cons hc (.cons ht (.cons hf .nil)) =>
    simp only [operate, String.reduceEq, if_false, if_true, bind, Except.bind]
    cases c with
    | error e => exact hc
    | ok v =>
      simp only
      split
      · exact ht
      · exact hf

/-- A list related to two elements has two elements. -/
theorem forall₂_pair {α β : Type*} {R : α → β → Prop} {xs : List α} {l r : β} (h : List.Forall₂ R xs [l, r]) :
    ∃ a b, xs = [a, b] ∧ R a l ∧ R b r := by
  obtain ⟨a, xs', ha, htail, rfl⟩ := List.forall₂_cons_right_iff.mp h
  obtain ⟨b, xs'', hb, hnil, rfl⟩ := List.forall₂_cons_right_iff.mp htail
  cases hnil
  exact ⟨a, b, rfl, ha, hb⟩

/-- Equality and membership: any two values can be compared, and `in` is given text or a list. -/
theorem relational_sound {context : Value} {operator : String} {args : List Node}
    {rs : List (Except EvaluationError Value)} {left right : NodeType} (ho : operator ∈ ["==", "!=", "in"])
    (hin : operator = "in" → right = .text ∨ right = .emptyList ∨ ∃ element, right = .list element)
    (h : List.Forall₂ Sound rs [left, right]) : Sound (operate context operator args rs) .boolean := by
  simp only [List.mem_cons, List.not_mem_nil, or_false] at ho
  rcases ho with rfl | rfl | rfl <;> rw [operate_eager (by decide)] <;>
    refine applyOperator_sound (fun _ => rfl) h fun vs ht => ?_
  · obtain ⟨a, b, rfl, -, -⟩ := forall₂_pair ht
    exact HasType.bool _
  · obtain ⟨a, b, rfl, -, -⟩ := forall₂_pair ht
    exact HasType.bool _
  · obtain ⟨a, b, rfl, -, hb⟩ := forall₂_pair ht
    exact membership_sound a hb (hin rfl)

/-- An operation whose argument types are accepted is sound for the type given to it. -/
theorem operation_sound {context : Value} {location operator : String} {args : List Node}
    {rs : List (Except EvaluationError Value)} {types : List NodeType} {type : NodeType}
    (ho : operator ∈ operationOperators) (hne : types ≠ []) (hone : operator = "!" → types.length = 1)
    (ht : operationType location operator types = .ok type) (h : List.Forall₂ Sound rs types) :
    Sound (operate context operator args rs) type := by
  unfold operationType at ht
  by_cases hnum : operator ∈ [">", ">=", "<", "<=", "+", "-", "*", "min", "max"]
  · rw [if_pos hnum] at ht
    cases hreq : require location operator .number "works on numbers" 0 types with
    | error e => simp [hreq, bind, Except.bind] at ht
    | ok _ =>
      simp only [hreq, Except.ok_bind, Except.pure_def, Except.ok.injEq] at ht
      exact ht ▸ numeric_sound hnum hne (require_ok hreq) h
  rw [if_neg hnum] at ht
  by_cases hlog : operator ∈ ["and", "or", "!"]
  · rw [if_pos hlog] at ht
    cases hreq : require location operator .boolean "combines true/false conditions" 0 types with
    | error e => simp [hreq, bind, Except.bind] at ht
    | ok _ =>
      simp only [hreq, Except.ok_bind, Except.pure_def, Except.ok.injEq] at ht
      exact ht ▸ logical_sound hlog hone (require_ok hreq) h
  rw [if_neg hlog] at ht
  by_cases hif : operator = "if"
  · rw [if_pos hif] at ht
    subst hif
    split at ht
    · rename_i condition whenTrue whenFalse
      split at ht
      · cases ht
      · rename_i hc
        split at ht
        · cases ht
        · rename_i hb
          cases ht
          rw [not_not.mp hc, ← not_not.mp hb] at h
          exact if_sound h
    · cases ht
  rw [if_neg hif] at ht
  have hrel : operator ∈ ["==", "!=", "in"] := by
    simp only [operationOperators, List.mem_cons, List.not_mem_nil, or_false, not_or] at ho hnum hlog ⊢
    tauto
  split at ht
  · rename_i left right
    by_cases heq : operator ∈ ["==", "!="]
    · rw [if_pos heq] at ht
      split at ht
      · cases ht
      · cases ht
        refine relational_sound hrel (fun hin => ?_) h
        subst hin
        simp at heq
    · rw [if_neg heq] at ht
      split at ht
      · split at ht
        · cases ht
        · cases ht
          exact relational_sound hrel (fun _ => Or.inl rfl) h
      · cases ht
        exact relational_sound hrel (fun _ => Or.inr (Or.inl rfl)) h
      · split at ht
        · cases ht
        · cases ht
          exact relational_sound hrel (fun _ => Or.inr (Or.inr ⟨_, rfl⟩)) h
      · cases ht
  · cases ht

end SoundnessAux

end FraudDetection
