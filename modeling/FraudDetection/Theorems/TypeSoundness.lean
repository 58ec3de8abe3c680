import FraudDetection.Lemmas.Operators

/-!
# Type soundness of conditions

The static check and the evaluator are two walks over the same tree. Here: whatever the check accepts, the evaluator evaluates to
a value of the type the check worked out, or stops at a decimal signal inside `+`, `-` or `*`; nothing else can go wrong, in any
branch.
-/

namespace FraudDetection

namespace SoundnessAux

/-! ## What `visit` accepts, `_evaluate` evaluates -/

/-- The normalised items of a list, evaluated one by one. -/
theorem evaluateEach_normaliseItems (context : Value) (items : List Json) :
    evaluateEach context (normaliseItems items) = items.map fun item => evaluate context (normaliseLiteral item) := by
  induction items with
  | nil => rfl
  | cons item items ih => simp only [normaliseItems, evaluateEach, ih, List.map_cons]

/-- An operation of a normalised condition is evaluated on its arguments, in a list or not. -/
theorem evaluate_operation (context : Value) (operator : String) (raw : Json) :
    evaluate context (normaliseLiteral (.obj [(operator, raw)])) =
      operate context operator (normaliseItems (operatorArgs raw)) (evaluateEach context (normaliseItems (operatorArgs raw))) := by
  cases raw with
  | float f => cases f <;> simp [normaliseLiteral, normaliseEntries, normaliseItems, normaliseFloat, operatorArgs, evaluate, evaluateEach]
  | _ => simp [normaliseLiteral, normaliseEntries, normaliseItems, operatorArgs, evaluate, evaluateEach]

/-- A literal evaluates to a value of its type. -/
theorem literal_sound (context : Value) {node : Json} (h : IsLiteral node) :
    Sound (evaluate context (normaliseLiteral node)) (literalType node) := by
  cases node with
  | null => exact HasType.null
  | bool b => exact HasType.bool b
  | int n => exact HasType.num _
  | str s => exact HasType.str s
  | lone s => exact HasType.lone s
  | float f =>
    cases f with
    | finite f => exact HasType.num _
    | inf neg => cases h
    | nan => cases h
  | arr items => exact h.elim
  | obj entries => exact h.elim

/-- A list whose items are sound for one type is sound for the list of that type. -/
theorem list_sound {rs : List (Except EvaluationError Value)} {types : List NodeType} (h : List.Forall₂ Sound rs types)
    (hd : types.dedup.length ≤ 1) : Sound (do return .list (← collect rs)) (.listOf types.dedup.head?) := by
  rcases collect_sound h with ⟨vs, hvs, ht⟩ | ⟨e, he, ha⟩
  · simp only [hvs, Except.ok_bind, Except.pure_def]
    rcases dedup_const hd with ⟨rfl, hl⟩ | ⟨type, hne, hl, hall⟩
    · rw [hl, List.forall₂_nil_right_iff.mp ht]
      exact HasType.emptyList
    · rw [hl]
      refine HasType.list ?_ (forall₂_const ht hall)
      rintro rfl
      exact hne (List.forall₂_nil_left_iff.mp ht)
  · simp only [he, Except.error_bind]
    exact ha

/-- A variable resolves to a value of its declared type, or to its default. -/
theorem variable_sound {context : Value} (hc : TypedContext context) {name : String} {declared : Variable}
    (hd : variableNamed name = some declared) {args : List Node} {rs : List (Except EvaluationError Value)}
    (hr : declared.required = true ∨ ∃ r default, rs = [r, default] ∧ Sound default (.value declared.type)) :
    Sound (operate context "var" (.str name :: args) rs) (.value declared.type) := by
  have hname := hc name declared hd
  simp only [operate, if_true]
  cases hl : lookupVariable context name with
  | some value =>
    rw [hl] at hname
    exact hname
  | none =>
    rw [hl] at hname
    rcases hr with hreq | ⟨r, default, rfl, hs⟩
    · rw [hname] at hreq
      cases hreq
    · exact hs

/-- Type soundness of `_evaluate` for `visit`: by induction on the levels of nesting, construct by construct. -/
theorem visit_sound {context : Value} (hc : TypedContext context) {path : String} {levels : ℕ} :
    ∀ {node : Json} {location : String} {count count' : ℕ} {type : NodeType},
      visit path levels node location count = .ok (type, count') → Sound (evaluate context (normaliseLiteral node)) type := by
  induction levels with
  | zero =>
    intro _ _ _ _ _ h
    obtain ⟨_, hl, -⟩ := visit_cases h
    cases hl
  | succ levels ih =>
    intro node location count count' type h
    obtain ⟨l, hl, h⟩ := visit_cases h
    cases hl
    have each : ∀ {items : List Json} {types : List NodeType} {loc : ℕ → String} {count count' : ℕ},
        visitEach (visit path levels) loc 0 items count = .ok (types, count') →
        List.Forall₂ Sound (evaluateEach context (normaliseItems items)) types := by
      intro items types loc count count' hv
      rw [evaluateEach_normaliseItems, List.forall₂_map_left_iff]
      refine (visitEach_ok hv).imp ?_
      rintro item type ⟨_, _, _, hi⟩
      exact ih hi
    rcases h with ⟨items, types, loc, rfl, hv, hd, rfl⟩ | ⟨operator, raw, lo, hi, rfl, har, hlo, hhi, hv⟩ | ⟨hn, rfl⟩
    · exact list_sound (each hv) hd
    · rw [evaluate_operation]
      obtain ⟨hop, hpos, hone, htwo⟩ := arity_cases har
      rcases hv with ⟨rfl, hv⟩ | ⟨hne, types, loc, hv, ht⟩
      · obtain ⟨name, declared, rest, ha, hdecl, rfl, hrest⟩ := checkVariable_ok hv
        rw [ha]
        refine variable_sound hc hdecl ?_
        rcases hrest with ⟨-, hreq⟩ | ⟨default, more, rfl, _, _, _, hdef⟩
        · exact Or.inl hreq
        · have hlen := hhi 2 (htwo rfl)
          rw [ha] at hlen
          have hmore : more = [] := by
            simp only [List.length_cons] at hlen
            exact List.eq_nil_of_length_eq_zero (by omega)
          subst hmore
          exact Or.inr ⟨_, _, rfl, ih hdef⟩
      · have hl : (operatorArgs raw).length = types.length := (visitEach_ok hv).length_eq
        refine operation_sound (hop.resolve_left hne) ?_ ?_ ht (each hv)
        · rintro rfl
          rw [List.length_nil] at hl
          omega
        · intro hnot
          have := hhi 1 (hone hnot)
          omega
    · exact literal_sound context hn

/-- Every part of a node that was given a type was given one too. -/
theorem inferredType_sub {node e : Json} (hs : SubExpression node e) :
    ∀ {type : NodeType}, InferredType node type → ∃ type', InferredType e type' := by
  have each : ∀ {path : String} {levels : ℕ} {items : List Json} {types : List NodeType} {loc : ℕ → String}
      {count count' : ℕ} {item : Json}, item ∈ items →
      visitEach (visit path levels) loc 0 items count = .ok (types, count') → ∃ type, InferredType item type := by
    intro path levels items types loc count count' item hm hv
    obtain ⟨i, hi, rfl⟩ := List.mem_iff_getElem.mp hm
    have hall := visitEach_ok hv
    obtain ⟨_, _, _, ht⟩ := hall.get hi (hall.length_eq ▸ hi)
    exact ⟨_, path, levels, _, _, _, ht⟩
  induction hs with
  | refl => intro type h; exact ⟨type, h⟩
  | @item items item e hm _ ih =>
    rintro type ⟨path, levels, location, count, count', h⟩
    obtain ⟨l, -, h⟩ := visit_cases h
    rcases h with ⟨_, types, loc, hi, hv, -⟩ | ⟨_, _, _, _, hi, -⟩ | ⟨hn, -⟩
    · cases hi
      obtain ⟨t, ht⟩ := each hm hv
      exact ih ht
    · cases hi
    · exact hn.elim
  | @arg operator raw arg e ho hm _ ih =>
    rintro type ⟨path, levels, location, count, count', h⟩
    obtain ⟨l, -, h⟩ := visit_cases h
    rcases h with ⟨_, _, _, hi, -⟩ | ⟨_, _, _, _, hi, -, -, -, hv⟩ | ⟨hn, -⟩
    · cases hi
    · cases hi
      rcases hv with ⟨hvar, -⟩ | ⟨-, types, loc, hv, -⟩
      · exact absurd hvar ho
      · obtain ⟨t, ht⟩ := each hm hv
        exact ih ht
    · exact hn.elim
  | @default raw name default e rest hr _ ih =>
    rintro type ⟨path, levels, location, count, count', h⟩
    obtain ⟨l, -, h⟩ := visit_cases h
    rcases h with ⟨_, _, _, hi, -⟩ | ⟨_, _, _, _, hi, -, -, -, hv⟩ | ⟨hn, -⟩
    · cases hi
    · cases hi
      rcases hv with ⟨-, hv⟩ | ⟨hne, -⟩
      · obtain ⟨name', declared, rest', ha, -, -, hrest⟩ := checkVariable_ok hv
        rw [hr] at ha
        cases ha
        rcases hrest with ⟨hnil, -⟩ | ⟨default', more, hcons, loc, c, c', hdef⟩
        · cases hnil
        · cases hcons
          exact ih ⟨path, l, loc, c, c', hdef⟩
      · exact absurd rfl hne
    · exact hn.elim

/-! ## The variables of an event -/

/-- A group of variables that is two lists of entries, one after the other. -/
theorem get?_append (xs ys : List (String × Value)) (key : String) :
    Value.get? (xs ++ ys) key = (Value.get? xs key).or (Value.get? ys key) := by
  induction xs with
  | nil => rfl
  | cons x xs ih =>
    simp only [List.cons_append, Value.get?]
    split
    · rfl
    · exact ih

/-- An optional value that is left out when it is absent. -/
theorem get?_optional {α : Type} (o : Option α) (name : String) (f : α → Value) (key : String) :
    Value.get? (o.map fun v => (name, f v)).toList key = if name = key then o.map f else none := by
  cases o with
  | none => simp [Value.get?]
  | some v => simp [Value.get?]

/-- A name without a dot is looked up in the outer group. -/
theorem lookup_plain {entries : List (String × Value)} {name : String} (h : splitDots name.toList = [name.toList]) :
    lookupVariable (.dict entries) name = Value.get? entries name := by
  unfold lookupVariable
  rw [h]
  simp only [lookupParts, String.ofList_toList]
  cases Value.get? entries name <;> rfl

/-- A name with a dot is looked up in the group it names. -/
theorem lookup_nested {entries group : List (String × Value)} {name : String} (first second : String)
    (h : splitDots name.toList = [first.toList, second.toList]) (hg : Value.get? entries first = some (.dict group)) :
    lookupVariable (.dict entries) name = Value.get? group second := by
  unfold lookupVariable
  rw [h]
  simp only [lookupParts, String.ofList_toList, hg]
  cases Value.get? group second <;> rfl

/-- The type of a feature. -/
def featureType : Feature → ValueType
  | .decimal _ | .int _ => .number
  | .bool _ => .boolean

/-- A normalised feature has the feature's type. -/
theorem normalise_hasType {feature : Feature} {v : Value} (h : feature.normalise = .ok v) :
    HasType v (.value (featureType feature)) := by
  cases feature with
  | decimal d => cases h; exact HasType.num d
  | int n =>
    simp only [Feature.normalise] at h
    split at h
    · cases h
    · cases h
      exact HasType.num _
  | bool b => cases h; exact HasType.bool b

/-- A value under a key is one of the features under that key, normalised. -/
theorem normaliseFeatures_get? {features : List (String × Feature)} :
    ∀ {entries : List (String × Value)}, normaliseFeatures features = .ok entries → ∀ {key : String} {v : Value},
      Value.get? entries key = some v → ∃ feature, (key, feature) ∈ features ∧ feature.normalise = .ok v := by
  induction features with
  | nil =>
    intro entries h key v hv
    cases h
    cases hv
  | cons f features ih =>
    intro entries h key v hv
    obtain ⟨name, feature⟩ := f
    obtain ⟨w, hw, h⟩ := Except.bind_eq_ok.mp h
    obtain ⟨rest, hrest, h⟩ := Except.bind_eq_ok.mp h
    cases h
    simp only [Value.get?] at hv
    split at hv
    · rename_i hk
      cases hv
      exact ⟨feature, hk ▸ List.mem_cons_self, hw⟩
    · obtain ⟨feature', hm, hn⟩ := ih hrest hv
      exact ⟨feature', List.mem_cons_of_mem _ hm, hn⟩

/-- Every feature an enrichment is dumped to is declared as a variable of its type, one that a producer may leave out. -/
theorem modelDump_types {e : Enrichment} {name : String} {feature : Feature} (h : (name, feature) ∈ e.modelDump) :
    (name = "distance_from_last_tx_km" ∧ featureType feature = .number) ∨
      (name = "minutes_since_last_tx" ∧ featureType feature = .number) ∨
      (name = "user_historical_avg_spend" ∧ featureType feature = .number) ∨
      (name = "is_new_merchant_for_user" ∧ featureType feature = .boolean) ∨
      (name = "is_travel_itinerary_active" ∧ featureType feature = .boolean) := by
  simp only [Enrichment.modelDump, List.mem_append, Option.mem_toList, Option.map_eq_some_iff, Prod.mk.injEq] at h
  rcases h with (((⟨_, _, rfl, rfl⟩ | ⟨_, _, rfl, rfl⟩) | ⟨_, _, rfl, rfl⟩) | ⟨_, _, rfl, rfl⟩) | ⟨_, _, rfl, rfl⟩
  · exact Or.inl ⟨rfl, rfl⟩
  · exact Or.inr (Or.inl ⟨rfl, rfl⟩)
  · exact Or.inr (Or.inr (Or.inl ⟨rfl, rfl⟩))
  · exact Or.inr (Or.inr (Or.inr (Or.inl ⟨rfl, rfl⟩)))
  · exact Or.inr (Or.inr (Or.inr (Or.inr ⟨rfl, rfl⟩)))

/-- The features an event's context holds, each of the type its name is declared with. -/
theorem ofEvent_feature {event : TransactionCreatedV1} {priorCount : ℕ} {priorAmount : Decimal}
    {entries : List (String × Value)}
    (h : normaliseFeatures (EvaluationContext.ofEvent event priorCount priorAmount).enrichment = .ok entries)
    {key : String} {v : Value} (hv : Value.get? entries key = some v) :
    HasType v (.value (if key ∈ ["is_new_merchant_for_user", "is_travel_itinerary_active"] then .boolean else .number)) := by
  obtain ⟨feature, hm, hn⟩ := normaliseFeatures_get? h hv
  simp only [EvaluationContext.ofEvent] at hm
  cases he : event.enrichment with
  | none => rw [he] at hm; cases hm
  | some e =>
    rw [he] at hm
    have ht := normalise_hasType hn
    rcases modelDump_types hm with ⟨rfl, hf⟩ | ⟨rfl, hf⟩ | ⟨rfl, hf⟩ | ⟨rfl, hf⟩ | ⟨rfl, hf⟩ <;> rw [hf] at ht <;> exact ht

/-- A variable with that declaration is one of `VARIABLES`. -/
theorem variableNamed_mem {name : String} {declared : Variable} (h : variableNamed name = some declared) :
    (name, declared) ∈ declaredVariables := by
  obtain ⟨⟨n, d⟩, hf, rfl⟩ := Option.map_eq_some_iff.mp h
  have hn := List.find?_some hf
  rw [beq_iff_eq] at hn
  exact hn ▸ List.mem_of_find?_eq_some hf

/-- A text that may be left out is text when it is there. -/
theorem typedLookup_text (o : Option String) : TypedLookup ⟨.text, false⟩ (o.map Value.str) := by
  cases o with
  | none => rfl
  | some s => exact HasType.str s

/-- The variables of an event are typed, whichever of its optional fields are present. -/
theorem ofEvent_typed {event : TransactionCreatedV1} {priorCount : ℕ} {priorAmount : Decimal} {vars : Value}
    (h : (EvaluationContext.ofEvent event priorCount priorAmount).asVariables = .ok vars) : TypedContext vars := by
  obtain ⟨enrichment, he, h⟩ := Except.bind_eq_ok.mp h
  cases h
  have feature : ∀ {entries : List (String × Value)} (name key : String) (type : ValueType),
      Value.get? entries "enrichment" = some (.dict enrichment) →
      splitDots name.toList = ["enrichment".toList, key.toList] →
      (if key ∈ ["is_new_merchant_for_user", "is_travel_itinerary_active"] then .boolean else .number) = type →
      TypedLookup ⟨type, false⟩ (lookupVariable (.dict entries) name) := by
    intro entries name key type hg hs ht
    rw [lookup_nested _ _ hs hg]
    cases hv : Value.get? enrichment key with
    | none => rfl
    | some v => exact ht ▸ ofEvent_feature he hv
  have hg : ∀ {tail : List (String × Value)} {amount currency category velocity : Value},
      Value.get? (("amount", amount) :: ("currency", currency) :: ("category", category) :: ("velocity", velocity) ::
        ("enrichment", .dict enrichment) :: tail) "enrichment" = some (.dict enrichment) := by
    intro tail amount currency category velocity
    simp only [Value.get?, String.reduceEq, if_false, if_true]
  intro name declared hd
  have hm := variableNamed_mem hd
  simp only [declaredVariables, List.mem_cons, List.not_mem_nil, or_false, Prod.mk.injEq] at hm
  rcases hm with ⟨rfl, rfl⟩ | ⟨rfl, rfl⟩ | ⟨rfl, rfl⟩ | ⟨rfl, rfl⟩ | ⟨rfl, rfl⟩ | ⟨rfl, rfl⟩ | ⟨rfl, rfl⟩ | ⟨rfl, rfl⟩ |
    ⟨rfl, rfl⟩ | ⟨rfl, rfl⟩ | ⟨rfl, rfl⟩ | ⟨rfl, rfl⟩
  · rw [lookup_plain (by decide)]
    exact HasType.num _
  · rw [lookup_plain (by decide)]
    exact HasType.str _
  · rw [lookup_plain (by decide)]
    exact HasType.str _
  · rw [lookup_nested "velocity" "prior_count" (by decide) rfl]
    exact HasType.num _
  · rw [lookup_nested "velocity" "prior_amount" (by decide) rfl]
    exact HasType.num _
  · rw [lookup_plain (by decide), get?_append, get?_append, get?_optional, get?_optional]
    simpa [Value.get?, EvaluationContext.ofEvent] using typedLookup_text event.channel
  · rw [lookup_plain (by decide), get?_append, get?_append, get?_optional, get?_optional]
    simpa [Value.get?, EvaluationContext.ofEvent] using typedLookup_text event.country
  · exact feature "enrichment.distance_from_last_tx_km" "distance_from_last_tx_km" .number hg (by decide) (by decide)
  · exact feature "enrichment.minutes_since_last_tx" "minutes_since_last_tx" .number hg (by decide) (by decide)
  · exact feature "enrichment.user_historical_avg_spend" "user_historical_avg_spend" .number hg (by decide) (by decide)
  · exact feature "enrichment.is_new_merchant_for_user" "is_new_merchant_for_user" .boolean hg (by decide) (by decide)
  · exact feature "enrichment.is_travel_itinerary_active" "is_travel_itinerary_active" .boolean hg (by decide) (by decide)

end SoundnessAux

open SoundnessAux

/-- Type soundness: a condition that `validate_expression` accepts, evaluated with the variables of any event and any velocity,
gives a boolean or stops at a decimal signal inside `+`, `-` or `*`; and every part of it that can be evaluated has one inferred
type and evaluates to a value of that type, or stops there in the same way. -/
theorem accepted_condition_sound {condition : Json} {path : String} (hv : validateExpression condition path = .ok ())
    (event : TransactionCreatedV1) (priorCount : ℕ) (priorAmount : Decimal) {vars : Value}
    (hvars : (EvaluationContext.ofEvent event priorCount priorAmount).asVariables = .ok vars) :
    ((∃ b, evaluate vars (normaliseLiteral condition) = .ok (.bool b)) ∨
      ∃ operator ∈ ["+", "-", "*"], ∃ signal,
        evaluate vars (normaliseLiteral condition) = .error (.arithmetic operator signal)) ∧
    ∀ e, SubExpression condition e →
      ∃! type, InferredType e type ∧ Sound (evaluate vars (normaliseLiteral e)) type := by
  obtain ⟨⟨type, count⟩, hvisit, hbool⟩ := Except.bind_eq_ok.mp hv
  have hc := ofEvent_typed hvars
  have ht : type = .boolean := by
    by_contra hne
    simp only [ne_eq, hne, not_false_eq_true, if_true] at hbool
    cases hbool
  subst ht
  refine ⟨?_, fun e he => ?_⟩
  · have hs := visit_sound hc hvisit
    cases hr : evaluate vars (normaliseLiteral condition) with
    | ok v =>
      rw [hr] at hs
      obtain ⟨b, rfl⟩ := bool_of_hasType hs
      exact Or.inl ⟨b, rfl⟩
    | error e =>
      rw [hr] at hs
      cases e with
      | arithmetic operator signal => exact Or.inr ⟨operator, hs, signal, rfl⟩
      | _ => exact hs.elim
  · obtain ⟨type, p, levels, location, c, c', hvis⟩ := inferredType_sub he ⟨path, _, _, _, _, hvisit⟩
    refine ⟨type, ⟨⟨p, levels, location, c, c', hvis⟩, visit_sound hc hvis⟩, ?_⟩
    rintro type' ⟨⟨p', levels', location', d, d', hvis'⟩, -⟩
    exact visit_unique hvis' hvis

namespace TypeSoundnessExample

/-- The condition of `HIGH_VALUE_THRESHOLD`. -/
def condition : Json := .obj [(">=", .arr [.obj [("var", .str "amount")], .int 10000])]

/-- A transaction of 10000.00 in rand, with one enrichment feature. -/
def event : TransactionCreatedV1 where
  transactionId := ⟨1⟩
  userId := ⟨2⟩
  amount := ⟨⟨⟨1000000, -2⟩, 1000000, by decide, by norm_num [Decimal.toRat]⟩, by norm_num [Decimal.toRat]⟩
  currency := "ZAR"
  category := "GROCERIES"
  occurredAt := 0
  channel := none
  country := some "ZA"
  correlationId := none
  enrichment := some ⟨none, some 12, none, none, none⟩

/-- The variables of that transaction, the first of its user. -/
def vars : Value := .dict [
  ("amount", .num ⟨1000000, -2⟩), ("currency", .str "ZAR"), ("category", .str "GROCERIES"),
  ("velocity", .dict [("prior_count", .num (.ofInt 0)), ("prior_amount", .num (.ofInt 0))]),
  ("enrichment", .dict [("minutes_since_last_tx", .num (.ofInt 12))]), ("country", .str "ZA")]

end TypeSoundnessExample

open TypeSoundnessExample in
/-- The default rule on large amounts, on a transaction of exactly the amount it names. -/
theorem accepted_condition_sound_highValue :
    ((∃ b, evaluate vars (normaliseLiteral condition) = .ok (.bool b)) ∨
      ∃ operator ∈ ["+", "-", "*"], ∃ signal,
        evaluate vars (normaliseLiteral condition) = .error (.arithmetic operator signal)) ∧
    ∀ e, SubExpression condition e → ∃! type, InferredType e type ∧ Sound (evaluate vars (normaliseLiteral e)) type :=
  @accepted_condition_sound condition "condition" rfl event 0 (.ofInt 0) vars rfl

end FraudDetection
