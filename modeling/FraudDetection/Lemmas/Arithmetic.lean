import FraudDetection.Arithmetic
import FraudDetection.Theorems.TypeSoundness

/-!
# Two roundings of one condition

What the evaluations of a condition under two roundings have in common. An evaluation signals exactly when it rounds something
that signals (`evaluateIn_failsExactly`), and two roundings that agree on all that one of them is asked to round evaluate the
condition alike (`evaluateIn_simulates`).
-/

namespace FraudDetection

namespace ArithmeticAux

/-! ## Comparisons depend on values alone -/

theorem lt_congr {a a' b b' : Decimal} (ha : a.toRat = a'.toRat) (hb : b.toRat = b'.toRat) : a.lt b = a'.lt b' := by
  rw [Bool.eq_iff_iff, Decimal.lt_iff, Decimal.lt_iff, ha, hb]

theorem le_congr {a a' b b' : Decimal} (ha : a.toRat = a'.toRat) (hb : b.toRat = b'.toRat) : a.le b = a'.le b' := by
  rw [Bool.eq_iff_iff, Decimal.le_iff, Decimal.le_iff, ha, hb]

theorem eqv_congr {a a' b b' : Decimal} (ha : a.toRat = a'.toRat) (hb : b.toRat = b'.toRat) : a.eqv b = a'.eqv b' := by
  rw [Bool.eq_iff_iff, Decimal.eqv_iff, Decimal.eqv_iff, ha, hb]

theorem coeff_eq_zero_iff (d : Decimal) : d.coeff = 0 ↔ d.toRat = 0 := by
  unfold Decimal.toRat
  rw [mul_eq_zero, Int.cast_eq_zero]
  exact ⟨Or.inl, fun h => h.resolve_right (by positivity)⟩

/-! ## Signals -/

/-- A result that is no decimal signal. -/
def NoSignal (r : Except EvaluationError Value) : Prop := ∀ e, r = .error e → ¬e.IsArithmetic

theorem noSignal_ok (v : Value) : NoSignal (.ok v) := by
  intro e he
  cases he

theorem numbers_noSignal {operator : String} {vs : List Value} {e : EvaluationError} (h : numbers operator vs = .error e) :
    ¬e.IsArithmetic := by
  induction vs with
  | nil => cases h
  | cons v vs ih =>
    unfold numbers at h
    cases v with
    | num d =>
      cases hn : numbers operator vs with
      | error e' =>
        rw [hn] at h
        cases h
        exact ih hn
      | ok ds => rw [hn] at h; cases h
    | _ =>
      cases h
      exact id

/-- A function of some numbers is no signal when it is none on numbers. -/
theorem numbers_bind_noSignal {operator : String} {vs : List Value} {f : List Decimal → Except EvaluationError Value}
    (hf : ∀ ds, NoSignal (f ds)) : NoSignal (numbers operator vs >>= f) := by
  intro e he
  cases hn : numbers operator vs with
  | error e' =>
    rw [hn] at he
    cases he
    exact numbers_noSignal hn
  | ok ds =>
    rw [hn] at he
    exact hf ds e he

theorem extremum_noSignal (operator : String) (better : Decimal → Decimal → Bool) (vs : List Value) :
    NoSignal (extremum operator better vs) := by
  refine numbers_bind_noSignal fun ds => ?_
  cases ds with
  | nil =>
    intro e he
    cases he
    exact id
  | cons d ds => exact noSignal_ok _

theorem unary_noSignal {f : Value → Except EvaluationError Value} (hf : ∀ v, NoSignal (f v)) (vs : List Value) :
    NoSignal (unary f vs) := by
  intro e he
  match vs with
  | [a] => exact hf a e he
  | [] => cases he; exact id
  | _ :: _ :: _ => cases he; exact id

theorem binary_noSignal {f : Value → Value → Except EvaluationError Value} (hf : ∀ v w, NoSignal (f v w)) (vs : List Value) :
    NoSignal (binary f vs) := by
  intro e he
  match vs with
  | [a, b] => exact hf a b e he
  | [] => cases he; exact id
  | [_] => cases he; exact id
  | _ :: _ :: _ :: _ => cases he; exact id

theorem membership_noSignal (needle haystack : Value) : NoSignal (membership needle haystack) := by
  intro e he
  cases haystack with
  | str s => cases needle <;> cases he
  | lone s => cases needle <;> cases he
  | list items => cases he
  | _ =>
    cases he
    exact id

/-- The operators that compute nothing do not signal. -/
theorem applyOperator_noSignal {operator : String} (ho : operator ∉ ["+", "-", "*"]) (vs : List Value) :
    NoSignal (applyOperator operator vs) := by
  unfold applyOperator
  cases hf : operators.find? (fun o => o.1 == operator) with
  | none =>
    intro e he
    cases he
    exact id
  | some o =>
    have hname := List.find?_some hf
    have hm := List.mem_of_find?_eq_some hf
    rw [beq_iff_eq] at hname
    simp only [operators, List.mem_cons, List.not_mem_nil, or_false] at hm
    rcases hm with rfl | rfl | rfl | rfl | rfl | rfl | rfl | rfl | rfl | rfl | rfl | rfl | rfl
    · exact binary_noSignal (fun _ _ => noSignal_ok _) vs
    · exact binary_noSignal (fun _ _ => noSignal_ok _) vs
    · exact numbers_bind_noSignal fun _ => noSignal_ok _
    · exact numbers_bind_noSignal fun _ => noSignal_ok _
    · exact numbers_bind_noSignal fun _ => noSignal_ok _
    · exact numbers_bind_noSignal fun _ => noSignal_ok _
    · exact unary_noSignal (fun _ => noSignal_ok _) vs
    · exact binary_noSignal membership_noSignal vs
    · exact absurd (by simp [← hname]) ho
    · exact absurd (by simp [← hname]) ho
    · exact absurd (by simp [← hname]) ho
    · exact extremum_noSignal "min" Decimal.lt vs
    · exact extremum_noSignal "max" (fun item best => best.lt item) vs

section

variable (round : Decimal → Except Decimal.Signal Decimal)

/-- An evaluation ends in a signal exactly when it rounds a number whose rounding signals. -/
abbrev Signals {α : Type} (t : Computation α) : Prop :=
  t.FailsExactly EvaluationError.IsArithmetic fun x => ∃ s, round x = .error s

theorem compute_signals {operator : String} (ho : operator ∈ ["+", "-", "*"]) (exact : Decimal) :
    Signals round (compute round operator exact) := by
  refine Traced.FailsExactly.record ?_
  cases round exact with
  | ok d => simp [arithmetic]
  | error s => exact ⟨fun _ => ⟨s, rfl⟩, fun _ => ⟨_, rfl, ho⟩⟩

theorem foldIn_signals {operator : String} (ho : operator ∈ ["+", "-", "*"]) (op : Decimal → Decimal → Decimal)
    (ds : List Decimal) : ∀ acc, Signals round (foldIn round operator op acc ds) := by
  induction ds with
  | nil => intro acc; exact .pure acc
  | cons d ds ih => intro acc; exact .bind (compute_signals round ho _) ih

theorem numbersIn_signals (operator : String) (vs : List Value) : Signals round (Traced.lift (numbers operator vs)) :=
  .lift fun _ he => numbers_noSignal he

theorem applyOperatorIn_signals (operator : String) (vs : List Value) :
    Signals round (applyOperatorIn round operator vs) := by
  unfold applyOperatorIn
  split_ifs with hadd hsub hmul
  · exact .bind (numbersIn_signals round "+" vs) fun _ => .bind (foldIn_signals round (by simp) _ _ _) fun _ => .pure _
  · refine .bind (numbersIn_signals round "-" vs) fun ds => ?_
    match ds with
    | [] => exact .lift fun e he => by cases he; exact id
    | [a] => exact .bind (compute_signals round (by simp) _) fun _ => .pure _
    | a :: b :: _ => exact .bind (compute_signals round (by simp) _) fun _ => .pure _
  · exact .bind (numbersIn_signals round "*" vs) fun _ => .bind (foldIn_signals round (by simp) _ _ _) fun _ => .pure _
  · exact .lift (applyOperator_noSignal (by simp [hadd, hsub, hmul]) vs)

theorem collectIn_signals {rs : List (Computation Value)} (h : ∀ r ∈ rs, Signals round r) :
    Signals round (collectIn rs) := by
  induction rs with
  | nil => exact .pure _
  | cons r rs ih =>
    exact .bind (h r List.mem_cons_self) fun _ => .bind (ih fun r hr => h r (List.mem_cons_of_mem _ hr)) fun _ => .pure _

theorem allTruthyIn_signals {rs : List (Computation Value)} (h : ∀ r ∈ rs, Signals round r) :
    Signals round (allTruthyIn rs) := by
  induction rs with
  | nil => exact .pure _
  | cons r rs ih =>
    refine .bind (h r List.mem_cons_self) fun v => ?_
    split
    · exact ih fun r hr => h r (List.mem_cons_of_mem _ hr)
    · exact .pure _

theorem anyTruthyIn_signals {rs : List (Computation Value)} (h : ∀ r ∈ rs, Signals round r) :
    Signals round (anyTruthyIn rs) := by
  induction rs with
  | nil => exact .pure _
  | cons r rs ih =>
    refine .bind (h r List.mem_cons_self) fun v => ?_
    split
    · exact .pure _
    · exact ih fun r hr => h r (List.mem_cons_of_mem _ hr)

theorem absentVariableIn_signals (name : String) {rs : List (Computation Value)} (h : ∀ r ∈ rs, Signals round r) :
    Signals round (absentVariableIn name rs) := by
  unfold absentVariableIn
  split
  · exact h _ (by simp)
  · exact .lift fun e he => by cases he; exact id

theorem operateIn_signals (context : Value) (operator : String) (args : List Node) {rs : List (Computation Value)}
    (h : ∀ r ∈ rs, Signals round r) : Signals round (operateIn round context operator args rs) := by
  have hlift : ∀ {e : EvaluationError}, ¬e.IsArithmetic → Signals round (Traced.lift (α := Value) (.error e)) := by
    intro e he
    exact .lift fun e' he' => by cases he'; exact he
  unfold operateIn
  split_ifs with hvar hand hor hif
  · split
    · split
      · exact .pure _
      · exact absentVariableIn_signals round _ h
    · exact absentVariableIn_signals round _ h
    · exact hlift id
    · exact hlift id
  · exact .bind (allTruthyIn_signals round h) fun _ => .pure _
  · exact .bind (anyTruthyIn_signals round h) fun _ => .pure _
  · split
    · refine .bind (h _ (by simp)) fun v => ?_
      split
      · exact h _ (by simp)
      · exact h _ (by simp)
    · exact hlift id
  · exact .bind (collectIn_signals round h) fun _ => applyOperatorIn_signals round operator _

mutual

/-- Node by node. -/
theorem evaluateIn_signals (context : Value) : ∀ node, Signals round (evaluateIn round context node)
  | .null => .pure _
  | .bool _ => .pure _
  | .num _ => .pure _
  | .nonFinite _ => .lift fun e he => by cases he; exact id
  | .str _ => .pure _
  | .lone _ => .pure _
  | .arr items => .bind (collectIn_signals round (evaluateEachIn_signals context items)) fun _ => .pure _
  | .obj [] => .lift fun e he => by cases he; exact id
  | .obj [(operator, arg)] => by
    have harg := evaluateIn_signals context arg
    cases arg with
    | arr args =>
      simp only [evaluateIn]
      exact operateIn_signals round context operator args (evaluateEachIn_signals context args)
    | _ => exact operateIn_signals round context operator _ fun r hr => List.mem_singleton.mp hr ▸ harg
  | .obj (_ :: _ :: _) => by
    simp only [evaluateIn]
    exact .lift fun e he => by cases he; exact id

theorem evaluateEachIn_signals (context : Value) : ∀ items, ∀ r ∈ evaluateEachIn round context items, Signals round r
  | [], _, hr => by cases hr
  | item :: items, r, hr => by
    rcases List.mem_cons.mp hr with rfl | hr
    · exact evaluateIn_signals context item
    · exact evaluateEachIn_signals context items r hr

end

end

/-! ## Alike values -/

/-- What a relation between numbers respects, for conditions to carry it over: values, and the exact operations. -/
structure Respects (E : Decimal → Decimal → Prop) : Prop where
  refl : ∀ a, E a a
  toRat : ∀ {a b}, E a b → a.toRat = b.toRat
  addExact : ∀ {a a' b b'}, E a a' → E b b' → E (a.addExact b) (a'.addExact b')
  mulExact : ∀ {a a' b b'}, E a a' → E b b' → E (a.mulExact b) (a'.mulExact b')
  negExact : ∀ {a a'}, E a a' → E a.negExact a'.negExact

theorem respects_eq : Respects Eq where
  refl _ := rfl
  toRat h := by rw [h]
  addExact h h' := by rw [h, h']
  mulExact h h' := by rw [h, h']
  negExact h := by rw [h]

theorem respects_sameNumber : Respects SameNumber where
  refl _ := rfl
  toRat h := h
  addExact h h' := by
    unfold SameNumber at h h' ⊢
    rw [Decimal.addExact_toRat, Decimal.addExact_toRat, h, h']
  mulExact h h' := by
    unfold SameNumber at h h' ⊢
    rw [Decimal.mulExact_toRat, Decimal.mulExact_toRat, h, h']
  negExact h := by
    unfold SameNumber at h ⊢
    rw [Decimal.negExact_toRat, Decimal.negExact_toRat, h]

theorem alikeItems_iff {E : Decimal → Decimal → Prop} {as bs : List Value} :
    AlikeItems E as bs ↔ List.Forall₂ (Alike E) as bs := by
  induction as generalizing bs with
  | nil => cases bs <;> simp [AlikeItems]
  | cons a as ih => cases bs <;> simp [AlikeItems, ih]

/-- Numbers related by equality make equal values. -/
theorem eq_of_alike : ∀ a b : Value, Alike Eq a b → a = b
  | .null, b, h => by cases b <;> first | rfl | exact h.elim
  | .bool _, b, h => by cases b <;> first | exact congrArg _ h | exact h.elim
  | .num _, b, h => by cases b <;> first | exact congrArg _ h | exact h.elim
  | .str _, b, h => by cases b <;> first | exact congrArg _ h | exact h.elim
  | .lone _, b, h => by cases b <;> first | exact congrArg _ h | exact h.elim
  | .dict _, b, h => by cases b <;> first | exact congrArg _ h | exact h.elim
  | .list as, b, h => by
    cases b with
    | list bs => exact congrArg Value.list (items as bs h)
    | _ => exact h.elim
where
  items : ∀ as bs : List Value, AlikeItems Eq as bs → as = bs
    | [], [], _ => rfl
    | a :: as, b :: bs, h => by rw [eq_of_alike a b h.1, items as bs h.2]
    | [], _ :: _, h => h.elim
    | _ :: _, [], h => h.elim

section

variable {E : Decimal → Decimal → Prop}

theorem alike_refl (hE : Respects E) : ∀ v, Alike E v v
  | .null => trivial
  | .bool _ => rfl
  | .num d => hE.refl d
  | .str _ => rfl
  | .lone _ => rfl
  | .dict _ => rfl
  | .list vs => items vs
where
  items : ∀ vs : List Value, AlikeItems E vs vs
    | [] => trivial
    | v :: vs => ⟨alike_refl hE v, items vs⟩

/-- A variable reads alike in the same context. -/
theorem lookup_refl (hE : Respects E) (context : Value) (name : String) :
    Option.Rel (Alike E) (lookupVariable context name) (lookupVariable context name) := by
  cases lookupVariable context name with
  | none => exact .none
  | some v => exact .some (alike_refl hE v)

theorem truthy_alike (hE : Respects E) {a b : Value} (h : Alike E a b) : a.truthy = b.truthy := by
  cases a <;> cases b <;> try exact h.elim
  · rfl
  · exact h
  · simp only [Value.truthy, ne_eq, coeff_eq_zero_iff, hE.toRat h]
  · rw [Value.truthy, Value.truthy, show _ = _ from h]
  · rfl
  · rename_i as bs
    cases as <;> cases bs <;> first | rfl | exact h.elim
  · rw [Value.truthy, Value.truthy, show _ = _ from h]

mutual

/-- Equality sees no difference between alike values. -/
theorem pyEq_alike (hE : Respects E) : ∀ a a' b b' : Value, Alike E a a' → Alike E b b' → a.pyEq b = a'.pyEq b'
  | .null, a', b, b', ha, hb => by
    cases a' <;> try exact ha.elim
    cases b <;> cases b' <;> first | rfl | exact hb.elim
  | .bool x, a', b, b', ha, hb => by
    cases a' <;> try exact ha.elim
    cases show _ = _ from ha
    cases b <;> cases b' <;> try exact hb.elim
    · rfl
    · cases show _ = _ from hb
      rfl
    · simp only [Value.pyEq]
      exact eqv_congr rfl (hE.toRat hb)
    · rfl
    · rfl
    · rfl
    · rfl
  | .num x, a', b, b', ha, hb => by
    cases a' <;> try exact ha.elim
    cases b <;> cases b' <;> try exact hb.elim
    · rfl
    · cases show _ = _ from hb
      simp only [Value.pyEq]
      exact eqv_congr (hE.toRat ha) rfl
    · simp only [Value.pyEq]
      exact eqv_congr (hE.toRat ha) (hE.toRat hb)
    · rfl
    · rfl
    · rfl
    · rfl
  | .str x, a', b, b', ha, hb => by
    cases a' <;> try exact ha.elim
    cases show _ = _ from ha
    cases b <;> cases b' <;> try exact hb.elim
    · rfl
    · rfl
    · rfl
    · cases show _ = _ from hb
      rfl
    · rfl
    · rfl
    · rfl
  | .lone x, a', b, b', ha, hb => by
    cases a' <;> try exact ha.elim
    cases show _ = _ from ha
    cases b <;> cases b' <;> try exact hb.elim
    · rfl
    · rfl
    · rfl
    · rfl
    · cases show _ = _ from hb
      rfl
    · rfl
    · rfl
  | .dict x, a', b, b', ha, hb => by
    cases a' <;> try exact ha.elim
    cases show _ = _ from ha
    cases b <;> cases b' <;> try exact hb.elim
    · rfl
    · rfl
    · rfl
    · rfl
    · rfl
    · rfl
    · cases show _ = _ from hb
      rfl
  | .list as, a', b, b', ha, hb => by
    cases a' with
    | list as' =>
      cases b <;> cases b' <;> try exact hb.elim
      · rfl
      · rfl
      · rfl
      · rfl
      · rfl
      · exact pyEqItems_alike hE as as' _ _ ha hb
      · rfl
    | _ => exact ha.elim

theorem pyEqItems_alike (hE : Respects E) : ∀ as as' bs bs' : List Value, AlikeItems E as as' → AlikeItems E bs bs' →
    Value.pyEqItems as bs = Value.pyEqItems as' bs'
  | [], as', bs, bs', ha, hb => by
    cases as' <;> try exact ha.elim
    cases bs <;> cases bs' <;> first | rfl | exact hb.elim
  | a :: as, as', bs, bs', ha, hb => by
    cases as' with
    | nil => exact ha.elim
    | cons a' as' =>
      cases bs <;> cases bs' <;> try exact hb.elim
      · rfl
      · rename_i b bs b' bs'
        simp only [Value.pyEqItems, pyEq_alike hE a a' b b' ha.1 hb.1, pyEqItems_alike hE as as' bs bs' ha.2 hb.2]

end

/-! ## The operators on alike arguments -/

theorem numbers_alike (operator : String) {vs vs' : List Value} (h : List.Forall₂ (Alike E) vs vs') :
    (numbers operator vs).Related (List.Forall₂ E) (numbers operator vs') := by
  induction h with
  | nil => exact List.Forall₂.nil
  | @cons v v' vs vs' hv _ ih =>
    cases v <;> cases v' <;> try exact hv.elim
    case num.num d d' =>
      simp only [numbers, toDecimal, Except.ok_bind]
      cases hn : numbers operator vs <;> cases hn' : numbers operator vs' <;> rw [hn, hn'] at ih
      · exact ih
      · exact ih.elim
      · exact ih.elim
      · exact List.Forall₂.cons hv ih
    all_goals rfl

/-- A function of some numbers, on alike arguments. -/
theorem numbers_bind_alike {operator : String} {vs vs' : List Value} (h : List.Forall₂ (Alike E) vs vs')
    {f : List Decimal → Except EvaluationError Value}
    (hf : ∀ ds ds', List.Forall₂ E ds ds' → (f ds).Related (Alike E) (f ds')) :
    (numbers operator vs >>= f).Related (Alike E) (numbers operator vs' >>= f) := by
  have hn := numbers_alike operator h
  cases hv : numbers operator vs <;> cases hv' : numbers operator vs' <;> rw [hv, hv'] at hn
  · exact hn
  · exact hn.elim
  · exact hn.elim
  · exact hf _ _ hn

theorem pairwise_alike {check : Decimal → Decimal → Bool}
    (hc : ∀ a a' b b', E a a' → E b b' → check a b = check a' b') {ds ds' : List Decimal} (h : List.Forall₂ E ds ds') :
    pairwise check ds = pairwise check ds' := by
  induction h with
  | nil => rfl
  | cons hd htail ih =>
    cases htail with
    | nil => rfl
    | cons hd' htail' =>
      simp only [pairwise, hc _ _ _ _ hd hd']
      rw [ih]

theorem compare_alike {operator : String} {check : Decimal → Decimal → Bool}
    (hc : ∀ a a' b b', E a a' → E b b' → check a b = check a' b') {vs vs' : List Value}
    (h : List.Forall₂ (Alike E) vs vs') :
    (compare operator check vs).Related (Alike E) (compare operator check vs') :=
  numbers_bind_alike h fun _ _ hds => pairwise_alike hc hds

theorem extremum_alike {operator : String} {better : Decimal → Decimal → Bool}
    (hb : ∀ a a' b b', E a a' → E b b' → better a b = better a' b') {vs vs' : List Value}
    (h : List.Forall₂ (Alike E) vs vs') :
    (extremum operator better vs).Related (Alike E) (extremum operator better vs') := by
  have hfold : ∀ {ds ds' : List Decimal}, List.Forall₂ E ds ds' → ∀ {d d' : Decimal}, E d d' →
      E (ds.foldl (fun best item => if better item best then item else best) d)
        (ds'.foldl (fun best item => if better item best then item else best) d') := by
    intro ds ds' hds
    induction hds with
    | nil => intro d d' hd; exact hd
    | @cons a a' ds ds' ha _ ih =>
      intro d d' hd
      simp only [List.foldl_cons, hb _ _ _ _ ha hd]
      refine ih ?_
      split
      · exact ha
      · exact hd
  refine numbers_bind_alike h fun ds ds' hds => ?_
  cases hds with
  | nil => rfl
  | cons hd hds => exact hfold hds hd

theorem unary_alike {f : Value → Except EvaluationError Value} (hf : ∀ a a', Alike E a a' → (f a).Related (Alike E) (f a'))
    {vs vs' : List Value} (h : List.Forall₂ (Alike E) vs vs') : (unary f vs).Related (Alike E) (unary f vs') := by
  cases h with
  | nil => rfl
  | cons ha h =>
    cases h with
    | nil => exact hf _ _ ha
    | cons _ _ => rfl

theorem binary_alike {f : Value → Value → Except EvaluationError Value}
    (hf : ∀ a a' b b', Alike E a a' → Alike E b b' → (f a b).Related (Alike E) (f a' b')) {vs vs' : List Value}
    (h : List.Forall₂ (Alike E) vs vs') : (binary f vs).Related (Alike E) (binary f vs') := by
  cases h with
  | nil => rfl
  | cons ha h =>
    cases h with
    | nil => rfl
    | cons hb h =>
      cases h with
      | nil => exact hf _ _ _ _ ha hb
      | cons _ _ => rfl

theorem membership_alike (hE : Respects E) {a a' b b' : Value} (ha : Alike E a a') (hb : Alike E b b') :
    (membership a b).Related (Alike E) (membership a' b') := by
  cases b <;> cases b' <;> try exact hb.elim
  case str.str s s' =>
    cases show _ = _ from hb
    cases a <;> cases a' <;> try exact ha.elim
    case str.str t t' =>
      cases show _ = _ from ha
      rfl
    all_goals rfl
  case lone.lone s s' =>
    cases show _ = _ from hb
    cases a <;> cases a' <;> try exact ha.elim
    case str.str t t' =>
      cases show _ = _ from ha
      rfl
    case lone.lone t t' =>
      cases show _ = _ from ha
      rfl
    all_goals rfl
  case list.list bs bs' =>
    have hany : ∀ {bs bs' : List Value}, List.Forall₂ (Alike E) bs bs' → bs.any (equals a) = bs'.any (equals a') := by
      intro bs bs' h
      induction h with
      | nil => rfl
      | cons hb _ ih => simp only [List.any_cons, equals, pyEq_alike hE _ _ _ _ ha hb] at ih ⊢; rw [ih]
    exact hany (alikeItems_iff.mp hb)
  all_goals rfl

/-- The operators that compute nothing give alike results. -/
theorem applyOperator_alike (hE : Respects E) {operator : String} (ho : operator ∉ ["+", "-", "*"]) {vs vs' : List Value}
    (h : List.Forall₂ (Alike E) vs vs') :
    (applyOperator operator vs).Related (Alike E) (applyOperator operator vs') := by
  unfold applyOperator
  cases hf : operators.find? (fun o => o.1 == operator) with
  | none => rfl
  | some o =>
    have hname := List.find?_some hf
    have hm := List.mem_of_find?_eq_some hf
    rw [beq_iff_eq] at hname
    simp only [operators, List.mem_cons, List.not_mem_nil, or_false] at hm
    rcases hm with rfl | rfl | rfl | rfl | rfl | rfl | rfl | rfl | rfl | rfl | rfl | rfl | rfl
    · refine binary_alike (fun a a' b b' ha hb => ?_) h
      exact pyEq_alike hE a a' b b' ha hb
    · refine binary_alike (fun a a' b b' ha hb => ?_) h
      exact congrArg Bool.not (pyEq_alike hE a a' b b' ha hb)
    · refine compare_alike (E := E) (fun _ _ _ _ ha hb => ?_) h
      exact lt_congr (hE.toRat hb) (hE.toRat ha)
    · refine compare_alike (E := E) (fun _ _ _ _ ha hb => ?_) h
      exact le_congr (hE.toRat hb) (hE.toRat ha)
    · refine compare_alike (E := E) (fun _ _ _ _ ha hb => ?_) h
      exact lt_congr (hE.toRat ha) (hE.toRat hb)
    · refine compare_alike (E := E) (fun _ _ _ _ ha hb => ?_) h
      exact le_congr (hE.toRat ha) (hE.toRat hb)
    · refine unary_alike (fun a a' ha => ?_) h
      exact congrArg Bool.not (truthy_alike hE ha)
    · exact binary_alike (fun _ _ _ _ ha hb => membership_alike hE ha hb) h
    · exact absurd (by simp [← hname]) ho
    · exact absurd (by simp [← hname]) ho
    · exact absurd (by simp [← hname]) ho
    · refine extremum_alike (E := E) (fun _ _ _ _ ha hb => ?_) h
      exact lt_congr (hE.toRat ha) (hE.toRat hb)
    · refine extremum_alike (E := E) (fun _ _ _ _ ha hb => ?_) h
      exact lt_congr (hE.toRat hb) (hE.toRat ha)

/-! ## Evaluations under two roundings -/

variable (E) (round round' : Decimal → Except Decimal.Signal Decimal)

/-- Two roundings agree on a number, and on the numbers related to it. -/
def Agree (x : Decimal) : Prop := ∀ y, E x y → (round x).Related E (round' y)

/-- As long as the two roundings agree on what the first evaluation rounds, the second follows it. -/
abbrev Follows {α : Type} (R : α → α → Prop) (t t' : Computation α) : Prop := t.Simulates (Agree E round round') E R t'

variable {E round round'}

theorem compute_follows (operator : String) {x y : Decimal} (h : E x y) :
    Follows E round round' E (compute round operator x) (compute round' operator y) := by
  refine Traced.Simulates.record h fun hx => ?_
  have hr := hx y h
  cases hx' : round x <;> cases hy' : round' y <;> rw [hx', hy'] at hr
  · exact congrArg _ hr
  · exact hr.elim
  · exact hr.elim
  · exact hr

theorem foldIn_follows (operator : String) {op : Decimal → Decimal → Decimal}
    (hop : ∀ {a a' b b'}, E a a' → E b b' → E (op a b) (op a' b')) {ds ds' : List Decimal} (h : List.Forall₂ E ds ds') :
    ∀ {acc acc'}, E acc acc' →
      Follows E round round' E (foldIn round operator op acc ds) (foldIn round' operator op acc' ds') := by
  induction h with
  | nil => intro acc acc' ha; exact .pure ha
  | cons hd _ ih => intro acc acc' ha; exact .bind (compute_follows operator (hop ha hd)) fun _ _ hr => ih hr

theorem applyOperatorIn_follows (hE : Respects E) (operator : String) {vs vs' : List Value}
    (h : List.Forall₂ (Alike E) vs vs') :
    Follows E round round' (Alike E) (applyOperatorIn round operator vs) (applyOperatorIn round' operator vs') := by
  unfold applyOperatorIn
  split_ifs with hadd hsub hmul
  · exact .bind (.lift (numbers_alike "+" h)) fun _ _ hds =>
      .bind (foldIn_follows "+" hE.addExact hds (hE.refl _)) fun _ _ hr => .pure hr
  · refine .bind (.lift (numbers_alike "-" h)) fun ds ds' hds => ?_
    cases hds with
    | nil => exact .lift rfl
    | cons ha hds =>
      cases hds with
      | nil => exact .bind (compute_follows "-" (hE.negExact ha)) fun _ _ hr => .pure hr
      | cons hb _ => exact .bind (compute_follows "-" (hE.addExact ha (hE.negExact hb))) fun _ _ hr => .pure hr
  · exact .bind (.lift (numbers_alike "*" h)) fun _ _ hds =>
      .bind (foldIn_follows "*" hE.mulExact hds (hE.refl _)) fun _ _ hr => .pure hr
  · exact .lift (applyOperator_alike hE (by simp [hadd, hsub, hmul]) h)

section

variable {rs rs' : List (Computation Value)} (h : List.Forall₂ (Follows E round round' (Alike E)) rs rs')
include h

theorem collectIn_follows : Follows E round round' (List.Forall₂ (Alike E)) (collectIn rs) (collectIn rs') := by
  induction h with
  | nil => exact .pure .nil
  | cons hr _ ih => exact .bind hr fun _ _ hv => .bind ih fun _ _ hvs => .pure (.cons hv hvs)

theorem allTruthyIn_follows (hE : Respects E) : Follows E round round' Eq (allTruthyIn rs) (allTruthyIn rs') := by
  induction h with
  | nil => exact .pure rfl
  | cons hr _ ih =>
    refine .bind hr fun v v' hv => ?_
    rw [truthy_alike hE hv]
    split
    · exact ih
    · exact .pure rfl

theorem anyTruthyIn_follows (hE : Respects E) : Follows E round round' Eq (anyTruthyIn rs) (anyTruthyIn rs') := by
  induction h with
  | nil => exact .pure rfl
  | cons hr _ ih =>
    refine .bind hr fun v v' hv => ?_
    rw [truthy_alike hE hv]
    split
    · exact .pure rfl
    · exact ih

theorem absentVariableIn_follows (name : String) :
    Follows E round round' (Alike E) (absentVariableIn name rs) (absentVariableIn name rs') := by
  cases h with
  | nil => exact .lift rfl
  | cons _ h =>
    cases h with
    | nil => exact .lift rfl
    | cons hd h =>
      cases h with
      | nil => exact hd
      | cons _ _ => exact .lift rfl

/-- An operation on alike arguments. The contexts differ at most in the numbers of the variable it reads, if it reads one. -/
theorem operateIn_follows (hE : Respects E) {context context' : Value} (operator : String) (args : List Node)
    (hc : ∀ name rest, operator = "var" → args = .str name :: rest →
      Option.Rel (Alike E) (lookupVariable context name) (lookupVariable context' name)) :
    Follows E round round' (Alike E) (operateIn round context operator args rs)
      (operateIn round' context' operator args rs') := by
  unfold operateIn
  split_ifs with hvar hand hor hif
  · split
    · rename_i name rest
      have hname := hc name rest hvar rfl
      cases hl : lookupVariable context name <;> cases hl' : lookupVariable context' name <;> rw [hl, hl'] at hname <;>
        cases hname
      case some.some ha => exact .pure ha
      case none.none => exact absentVariableIn_follows h name
    · exact absentVariableIn_follows h _
    · exact .lift rfl
    · exact .lift rfl
  · exact .bind (allTruthyIn_follows h hE) fun _ _ hb => .pure hb
  · exact .bind (anyTruthyIn_follows h hE) fun _ _ hb => .pure hb
  · cases h with
    | nil => exact .lift rfl
    | cons hc h =>
      cases h with
      | nil => exact .lift rfl
      | cons ht h =>
        cases h with
        | nil => exact .lift rfl
        | cons hf h =>
          cases h with
          | nil =>
            refine .bind hc fun v v' hv => ?_
            rw [truthy_alike hE hv]
            split
            · exact ht
            · exact hf
          | cons _ _ => exact .lift rfl
  · exact .bind (collectIn_follows h) fun _ _ hvs => applyOperatorIn_follows hE operator hvs

end

mutual

/-- Node by node: evaluations under two roundings that agree on what the first one rounds are alike. -/
theorem evaluateIn_follows (hE : Respects E) (context : Value) :
    ∀ node, Follows E round round' (Alike E) (evaluateIn round context node) (evaluateIn round' context node)
  | .null => .pure trivial
  | .bool _ => .pure rfl
  | .num d => .pure (hE.refl d)
  | .nonFinite _ => .lift rfl
  | .str _ => .pure rfl
  | .lone _ => .pure rfl
  | .arr items => .bind (collectIn_follows (evaluateEachIn_follows hE context items)) fun _ _ hvs =>
      .pure (alikeItems_iff.mpr hvs)
  | .obj [] => .lift rfl
  | .obj [(operator, arg)] => by
    have harg := evaluateIn_follows hE context arg
    cases arg with
    | arr args =>
      simp only [evaluateIn]
      exact operateIn_follows (evaluateEachIn_follows hE context args) hE operator args fun _ _ _ _ => lookup_refl hE _ _
    | _ => exact operateIn_follows (.cons harg .nil) hE operator _ fun _ _ _ _ => lookup_refl hE _ _
  | .obj (_ :: _ :: _) => by
    simp only [evaluateIn]
    exact .lift rfl

theorem evaluateEachIn_follows (hE : Respects E) (context : Value) : ∀ items,
    List.Forall₂ (Follows E round round' (Alike E)) (evaluateEachIn round context items)
      (evaluateEachIn round' context items)
  | [] => .nil
  | item :: items => .cons (evaluateIn_follows hE context item) (evaluateEachIn_follows hE context items)

end

end

end ArithmeticAux

end FraudDetection
