import FraudDetection.DryRun
import FraudDetection.Lemmas.SameNumber
import FraudDetection.Theorems.Arithmetic
import FraudDetection.Theorems.Timestamps
import FraudDetection.Theorems.Velocity

/-!
# When a request scores as an event does

A request and an event that agree in everything but their numbers, their times and their flags score alike, in every table and under
every rule set, exactly when those agree too and every window that can start before the event can start before the request
(`scoresAlike_iff`). One direction runs the two scorings side by side; the other tells a difference apart with a rule set of one rule.
-/

namespace FraudDetection

/-- Whatever an event scores, a request scores. -/
def ScoresAlike (event : TransactionCreatedV1) (request : EvaluateRequest) : Prop :=
  ∀ rows definition now score, scoreTransaction rows definition (.ofEvent event) = .ok score →
    scoreTransaction rows definition (.ofRequest request now) = .ok score

/-- Some rule set scores the event: the shortest window can start before it, and its minutes can be printed. -/
def Scorable (event : TransactionCreatedV1) : Prop := datetimeMin + 1000000 ≤ event.occurredAt ∧ PrintsMinutes event

/-- Two enrichments have the same features, and the same quantities among them. -/
structure SameFeatures (e e' : Enrichment) : Prop where
  distance : e'.distanceFromLastTxKm = e.distanceFromLastTxKm
  minutes : e'.minutesSinceLastTx.isSome = e.minutesSinceLastTx.isSome
  averageSpend : e'.userHistoricalAvgSpend = e.userHistoricalAvgSpend
  newMerchant : e'.isNewMerchantForUser.isSome = e.isNewMerchantForUser.isSome
  travelItinerary : e'.isTravelItineraryActive.isSome = e.isTravelItineraryActive.isSome

/-- A request at a time agrees with an event in everything but the amount, the time, the minutes and the flags. -/
structure Corresponds (event : TransactionCreatedV1) (request : EvaluateRequest) (time : AwareDatetime) : Prop where
  transactionId : request.transactionId = some event.transactionId
  userId : request.userId = event.userId
  currency : request.currency = event.currency
  category : request.category = event.category
  channel : request.channel = event.channel
  country : request.country = event.country
  occurredAt : request.occurredAt = some time
  enrichment : Option.Rel SameFeatures event.enrichment request.enrichment
  inRange : event.occurredAt ≤ datetimeMax

/-- The amount, the time and the enrichment agree too, the amount by value. -/
structure SameNumbers (event : TransactionCreatedV1) (request : EvaluateRequest) (time : AwareDatetime) : Prop where
  amount : request.amount.value.toRat = event.amount.value.toRat
  occurredAt : time.instant = event.occurredAt
  enrichment : request.enrichment = event.enrichment

/-- Every window that can start before the event can start before the request, in wall-clock time. -/
def WindowsStart (event : TransactionCreatedV1) (time : AwareDatetime) : Prop :=
  ∀ window : ℕ, 1 ≤ window → window ≤ 86400 → datetimeMin + window * 1000000 ≤ event.occurredAt →
    datetimeMin + window * 1000000 ≤ time.wall

namespace ScoresAlikeAux

open SoundnessAux

variable {event : TransactionCreatedV1} {request : EvaluateRequest} {time now : AwareDatetime}

/-! ## Side by side -/

theorem wall_ofRequest (h : request.occurredAt = some time) : (ScoreInput.ofRequest request now).wall = time.wall := by
  simp only [ScoreInput.ofRequest, h, Option.getD_some]

theorem offset_ofRequest (h : request.occurredAt = some time) : (ScoreInput.ofRequest request now).offset = time.offset := by
  simp only [ScoreInput.ofRequest, h, Option.getD_some]

/-- What a window needs to have a velocity: it does not start before the first year. -/
theorem start_of_velocity {input : ScoreInput} {rows : List TransactionRecord} {window : ℕ} {velocity : ℕ × Decimal}
    (h : input.velocity rows window = .ok velocity) : datetimeMin + window * 1000000 ≤ input.wall := by
  have hstart := (TimestampsAux.velocity_eq_ok.mp h).1.start.1
  omega

/-- A score is a velocity and what the rule set decides of it. -/
theorem score_eq_ok {rows : List TransactionRecord} {definition : RuleSetDefinition} {input : ScoreInput} {score : Score} :
    scoreTransaction rows definition input = .ok score ↔
      input.velocity rows definition.velocityWindowSeconds = .ok (score.priorCount, score.priorAmount) ∧
        evaluateRuleSet definition (input.context score.priorCount score.priorAmount) = .ok score.assessment := by
  unfold scoreTransaction
  cases hv : input.velocity rows definition.velocityWindowSeconds with
  | error error => simp
  | ok velocity =>
    obtain ⟨priorCount, priorAmount⟩ := velocity
    obtain ⟨assessment, count, amount⟩ := score
    simp only [Except.ok.injEq, Prod.mk.injEq]
    cases he : evaluateRuleSet definition (input.context priorCount priorAmount) with
    | error e =>
      constructor
      · intro h
        cases h
      · rintro ⟨⟨rfl, rfl⟩, ha⟩
        rw [he] at ha
        cases ha
    | ok assessment' =>
      constructor
      · intro h
        cases h
        exact ⟨⟨rfl, rfl⟩, he⟩
      · rintro ⟨⟨rfl, rfl⟩, ha⟩
        rw [he] at ha
        cases ha
        rfl

/-- The velocities agree when the windows do. -/
theorem velocity_ofRequest (hc : Corresponds event request time) (htime : time.instant = event.occurredAt) {window : ℕ}
    (hstart : datetimeMin + window * 1000000 ≤ event.occurredAt) (hwall : datetimeMin + window * 1000000 ≤ time.wall)
    (rows : List TransactionRecord) (now : AwareDatetime) :
    (ScoreInput.ofRequest request now).velocity rows window = (ScoreInput.ofEvent event).velocity rows window := by
  have hevent := TimestampsAux.windowHeld_ofEvent hstart hc.inRange
  have hoccurred : (ScoreInput.ofRequest request now).occurredAt = (ScoreInput.ofEvent event).occurredAt := by
    unfold ScoreInput.occurredAt
    rw [wall_ofRequest hc.occurredAt, offset_ofRequest hc.occurredAt]
    simpa [ScoreInput.ofEvent, AwareDatetime.instant] using htime
  have hrequest : WindowHeld (.ofRequest request now) window := by
    refine ⟨?_, hoccurred ▸ hevent.startUtc, hoccurred ▸ hevent.endUtc⟩
    have hmax := time.wall_ok.2
    rw [wall_ofRequest hc.occurredAt]
    omega
  rw [TimestampsAux.velocity_eq_ok.mpr ⟨hevent, rfl⟩, TimestampsAux.velocity_eq_ok.mpr ⟨hrequest, rfl⟩, hoccurred]
  simp only [ScoreInput.ofRequest, ScoreInput.ofEvent, ScoreInput.excludeTransactionId, hc.transactionId, hc.userId, hc.currency]

/-- The context of an event, with the amount as the request writes it. -/
theorem context_ofRequest (hc : Corresponds event request time) (henrichment : request.enrichment = event.enrichment)
    (now : AwareDatetime) (priorCount : ℕ) (priorAmount : Decimal) :
    (ScoreInput.ofRequest request now).context priorCount priorAmount =
      { (ScoreInput.ofEvent event).context priorCount priorAmount with amount := request.amount.value } := by
  simp only [ScoreInput.context, ScoreInput.ofRequest, ScoreInput.ofEvent, hc.currency, hc.category, hc.channel, hc.country,
    henrichment]

/-- An event that was scored can be scored. -/
theorem scorable_of_score {rows : List TransactionRecord} {definition : RuleSetDefinition} {score : Score}
    (h : scoreTransaction rows definition (.ofEvent event) = .ok score) :
    datetimeMin + definition.velocityWindowSeconds * 1000000 ≤ event.occurredAt ∧ Scorable event := by
  obtain ⟨hvelocity, hrules⟩ := score_eq_ok.mp h
  have hstart : datetimeMin + definition.velocityWindowSeconds * 1000000 ≤ event.occurredAt := start_of_velocity hvelocity
  have hwindow := definition.window_ok.1
  refine ⟨hstart, le_trans (by omega) hstart, ?_⟩
  rw [← ArithmeticAux.asVariables_ok_iff event score.priorCount score.priorAmount]
  unfold evaluateRuleSet at hrules
  cases hvars : (EvaluationContext.ofEvent event score.priorCount score.priorAmount).asVariables with
  | ok vars => exact ⟨vars, rfl⟩
  | error e =>
    rw [show (ScoreInput.ofEvent event).context score.priorCount score.priorAmount =
      EvaluationContext.ofEvent event score.priorCount score.priorAmount from rfl, hvars] at hrules
    cases hrules

/-- A request that agrees with an event in everything scores as it does. -/
theorem scoresAlike_of_same (hc : Corresponds event request time) (hsame : Scorable event → SameNumbers event request time)
    (hwindows : PrintsMinutes event → WindowsStart event time) : ScoresAlike event request := by
  intro rows definition now score h
  obtain ⟨hstart, hscorable⟩ := scorable_of_score h
  obtain ⟨hamount, htime, henrichment⟩ := hsame hscorable
  obtain ⟨hone, hday⟩ := definition.window_ok
  have hwall := hwindows hscorable.2 _ hone hday hstart
  obtain ⟨hvelocity, hrules⟩ := score_eq_ok.mp h
  refine score_eq_ok.mpr ⟨?_, ?_⟩
  · rw [velocity_ofRequest hc htime hstart hwall]
    exact hvelocity
  · rw [context_ofRequest hc henrichment, evaluateRuleSet_amount]
    · exact hrules
    · exact hamount.symm

/-! ## A rule set of one rule -/

theorem probe_code : codePattern "PROBE" = true := by decide

theorem probe_description : 1 ≤ "Tell a difference".length ∧ "Tell a difference".length ≤ 500 := by decide

theorem probe_rules (rule : RuleDefinition) : 1 ≤ [rule].length ∧ [rule].length ≤ 50 := by
  rw [List.length_singleton]
  decide

theorem probe_codes (rule : RuleDefinition) : ([rule].map (·.code)).Nodup := List.nodup_singleton rule.code

/-- A rule set of one rule that asks one question. -/
def probe (window : ℕ) (condition : List (String × Json)) (hwindow : 1 ≤ window ∧ window ≤ 86400)
    (hcondition : validateExpression (.obj condition) "condition" = .ok ()) : RuleSetDefinition where
  velocityWindowSeconds := window
  reviewThreshold := 1
  rejectThreshold := 1
  rules := [⟨"PROBE", "Tell a difference", 1, condition, probe_code, probe_description, Nat.le_add_left 1 999, hcondition⟩]
  window_ok := hwindow
  review_ok := Nat.le_refl 1
  reject_ok := Nat.le_refl 1
  rules_ok := probe_rules _
  codes_ok := probe_codes _
  ordered_ok := Nat.le_refl 1

/-- What it decides by the answer. -/
def probed (answer : Bool) : Assessment := if answer then ⟨["PROBE"], 1, .rejected⟩ else ⟨[], 0, .approved⟩

theorem probed_inj {answer answer' : Bool} (h : probed answer = probed answer') : answer = answer' := by
  cases answer <;> cases answer' <;> first | rfl | exact absurd (congrArg Assessment.riskScore h) (by decide)

variable {window : ℕ} {condition : List (String × Json)} {hwindow : 1 ≤ window ∧ window ≤ 86400}
  {hcondition : validateExpression (.obj condition) "condition" = .ok ()} {context : EvaluationContext}

theorem compiled_probe : (probe window condition hwindow hcondition).compiled = [("PROBE", 1, normaliseLiteral (.obj condition))] := rfl

/-- It decides by the truth of what its condition evaluates to. -/
theorem evaluateRuleSet_probe {vars v : Value} (hvars : context.asVariables = .ok vars)
    (hanswer : evaluate vars (normaliseLiteral (.obj condition)) = .ok v) :
    evaluateRuleSet (probe window condition hwindow hcondition) context = .ok (probed v.truthy) := by
  unfold evaluateRuleSet
  simp only [hvars, compiled_probe, fireRules, hanswer]
  cases v.truthy <;> rfl

/-- When it decides, its condition was evaluated. -/
theorem probe_answer {assessment : Assessment}
    (h : evaluateRuleSet (probe window condition hwindow hcondition) context = .ok assessment) :
    ∃ vars v, context.asVariables = .ok vars ∧ evaluate vars (normaliseLiteral (.obj condition)) = .ok v ∧
      assessment = probed v.truthy := by
  cases hvars : context.asVariables with
  | error e =>
    unfold evaluateRuleSet at h
    rw [hvars] at h
    cases h
  | ok vars =>
    cases hanswer : evaluate vars (normaliseLiteral (.obj condition)) with
    | error e =>
      unfold evaluateRuleSet at h
      simp only [hvars, compiled_probe, fireRules, hanswer] at h
      cases h
    | ok v =>
      rw [evaluateRuleSet_probe hvars hanswer] at h
      exact ⟨vars, v, rfl, hanswer, (Except.ok.inj h).symm⟩

/-- When a request scores as an event does, both have the same velocity and answer alike. -/
theorem probe_alike (halike : ScoresAlike event request) {rows : List TransactionRecord} {priorCount : ℕ} {priorAmount : Decimal}
    {vars v : Value} (hvelocity : (ScoreInput.ofEvent event).velocity rows window = .ok (priorCount, priorAmount))
    (hvars : ((ScoreInput.ofEvent event).context priorCount priorAmount).asVariables = .ok vars)
    (hanswer : evaluate vars (normaliseLiteral (.obj condition)) = .ok v) (now : AwareDatetime)
    (hwindow : 1 ≤ window ∧ window ≤ 86400) (hcondition : validateExpression (.obj condition) "condition" = .ok ()) :
    (ScoreInput.ofRequest request now).velocity rows window = .ok (priorCount, priorAmount) ∧
      ∃ vars' v', ((ScoreInput.ofRequest request now).context priorCount priorAmount).asVariables = .ok vars' ∧
        evaluate vars' (normaliseLiteral (.obj condition)) = .ok v' ∧ v'.truthy = v.truthy := by
  have hevent := @evaluateRuleSet_probe window condition hwindow hcondition _ _ _ hvars hanswer
  have hscore : scoreTransaction rows (probe window condition hwindow hcondition) (.ofEvent event) =
      .ok ⟨probed v.truthy, priorCount, priorAmount⟩ := score_eq_ok.mpr ⟨hvelocity, hevent⟩
  obtain ⟨hvelocity', hrequest⟩ := score_eq_ok.mp (halike rows _ now _ hscore)
  obtain ⟨vars', v', hvars', hanswer', hassessment⟩ := probe_answer hrequest
  exact ⟨hvelocity', vars', v', hvars', hanswer', probed_inj hassessment.symm⟩

/-! ## Questions -/

/-- `{"==": [1, 1]}`. -/
def always : List (String × Json) := [("==", .arr [.int 1, .int 1])]

/-- `{"==": [{"var": "amount"}, {"var": "velocity.prior_amount"}]}`. -/
def amountIsPrior : List (String × Json) :=
  [("==", .arr [.obj [("var", .str "amount")], .obj [("var", .str "velocity.prior_amount")]])]

/-- `{"==": [{"var": ["enrichment.minutes_since_last_tx", 0]}, minutes]}`. -/
def minutesAre (minutes : ℕ) : List (String × Json) :=
  [("==", .arr [.obj [("var", .arr [.str "enrichment.minutes_since_last_tx", .int 0])], .int minutes])]

/-- `{"var": [name, false]}`. -/
def flag (name : String) : List (String × Json) := [("var", .arr [.str name, .bool false])]

theorem always_accepted : validateExpression (.obj always) "condition" = .ok () := rfl

theorem amountIsPrior_accepted : validateExpression (.obj amountIsPrior) "condition" = .ok () := rfl

theorem minutesAre_accepted (minutes : ℕ) : validateExpression (.obj (minutesAre minutes)) "condition" = .ok () := rfl

theorem newMerchant_accepted :
    validateExpression (.obj (flag "enrichment.is_new_merchant_for_user")) "condition" = .ok () := rfl

theorem travelItinerary_accepted :
    validateExpression (.obj (flag "enrichment.is_travel_itinerary_active")) "condition" = .ok () := rfl

theorem always_answer (vars : Value) : evaluate vars (normaliseLiteral (.obj always)) = .ok (.bool true) := rfl

theorem amountIsPrior_answer {vars : Value} {amount prior : Decimal} (hamount : lookupVariable vars "amount" = some (.num amount))
    (hprior : lookupVariable vars "velocity.prior_amount" = some (.num prior)) :
    evaluate vars (normaliseLiteral (.obj amountIsPrior)) = .ok (.bool (amount.eqv prior)) := by
  simp [amountIsPrior, normaliseLiteral, normaliseEntries, normaliseItems, evaluate, evaluateEach, operate, hamount, hprior,
    collect, applyOperator, operators, binary, equals, Value.pyEq]

theorem minutesAre_answer {vars : Value} {minutes n : ℕ}
    (h : lookupVariable vars "enrichment.minutes_since_last_tx" = some (.num (.ofInt n))) :
    evaluate vars (normaliseLiteral (.obj (minutesAre minutes))) = .ok (.bool (decide (n = minutes))) := by
  have hvalue : (Decimal.ofInt n).eqv (Decimal.ofInt minutes) = decide (n = minutes) := by
    rw [Bool.eq_iff_iff, Decimal.eqv_iff, decide_eq_true_iff]
    simp [Decimal.toRat, Decimal.ofInt]
  simp [minutesAre, normaliseLiteral, normaliseEntries, normaliseItems, evaluate, evaluateEach, operate, h, collect,
    applyOperator, operators, binary, equals, Value.pyEq, hvalue]

theorem flag_answer {vars : Value} {name : String} {b : Bool} (h : lookupVariable vars name = some (.bool b)) :
    evaluate vars (normaliseLiteral (.obj (flag name))) = .ok (.bool b) := by
  simp [flag, normaliseLiteral, normaliseEntries, normaliseItems, evaluate, operate, h]

/-! ## What a rule reads -/

/-- The variables of a context: the amount and the prior amount. -/
theorem lookup_amounts {context : EvaluationContext} {vars : Value} (h : context.asVariables = .ok vars) :
    lookupVariable vars "amount" = some (.num context.amount) ∧
      lookupVariable vars "velocity.prior_amount" = some (.num context.priorAmount) := by
  obtain ⟨enrichment, -, h⟩ := Except.bind_eq_ok.mp h
  cases h
  constructor
  · rw [lookup_plain (by decide)]
    rfl
  · rw [lookup_nested "velocity" "prior_amount" (by decide) rfl]
    rfl

/-- A feature that is there is normalised under its key. -/
theorem get?_of_mem {features : List (String × Feature)} {key : String} {feature : Feature} (hm : (key, feature) ∈ features) :
    ∀ {entries : List (String × Value)}, normaliseFeatures features = .ok entries → ∃ v, Value.get? entries key = some v := by
  induction features with
  | nil => cases hm
  | cons f features ih =>
    intro entries h
    obtain ⟨name, other⟩ := f
    obtain ⟨w, -, h⟩ := Except.bind_eq_ok.mp h
    obtain ⟨rest, hrest, h⟩ := Except.bind_eq_ok.mp h
    cases h
    simp only [Value.get?]
    by_cases hk : name = key
    · rw [if_pos hk]
      exact ⟨w, rfl⟩
    · rw [if_neg hk]
      rcases List.mem_cons.mp hm with heq | hm
      · exact absurd (congrArg Prod.fst heq).symm hk
      · exact ih hm hrest

/-- An enrichment has one feature of a name. -/
theorem modelDump_unique {e : Enrichment} {key : String} {f f' : Feature} (h : (key, f) ∈ e.modelDump)
    (h' : (key, f') ∈ e.modelDump) : f = f' := by
  simp only [Enrichment.modelDump, List.mem_append, Option.mem_toList, Option.map_eq_some_iff, Prod.mk.injEq] at h h'
  rcases h with (((⟨a, ha, hk, rfl⟩ | ⟨a, ha, hk, rfl⟩) | ⟨a, ha, hk, rfl⟩) | ⟨a, ha, hk, rfl⟩) | ⟨a, ha, hk, rfl⟩ <;>
    rcases h' with (((⟨b, hb, hk', rfl⟩ | ⟨b, hb, hk', rfl⟩) | ⟨b, hb, hk', rfl⟩) | ⟨b, hb, hk', rfl⟩) | ⟨b, hb, hk', rfl⟩ <;>
    rw [← hk] at hk' <;> first | (rw [ha] at hb; cases hb; rfl) | exact absurd hk' (by decide)

/-- A rule reads a feature of an enrichment under its name. -/
theorem lookup_feature {context : EvaluationContext} {e : Enrichment} (he : context.enrichment = e.modelDump) {vars : Value}
    (h : context.asVariables = .ok vars) (name key : String) (hs : splitDots name.toList = ["enrichment".toList, key.toList])
    {feature : Feature} (hm : (key, feature) ∈ e.modelDump) :
    ∃ v, feature.normalise = .ok v ∧ lookupVariable vars name = some v := by
  obtain ⟨enrichment, hfeatures, h⟩ := Except.bind_eq_ok.mp h
  cases h
  rw [he] at hfeatures
  obtain ⟨v, hv⟩ := get?_of_mem hm hfeatures
  obtain ⟨feature', hm', hn⟩ := normaliseFeatures_get? hfeatures hv
  rw [modelDump_unique hm hm', lookup_nested "enrichment" key hs]
  · exact ⟨v, hn, hv⟩
  · rfl

/-- The minutes, as a rule reads them. -/
theorem lookup_minutes {context : EvaluationContext} {e : Enrichment} (he : context.enrichment = e.modelDump) {vars : Value}
    (h : context.asVariables = .ok vars) {minutes : ℕ} (hm : e.minutesSinceLastTx = some minutes) :
    lookupVariable vars "enrichment.minutes_since_last_tx" = some (.num (.ofInt minutes)) := by
  have hmem : ("minutes_since_last_tx", Feature.int minutes) ∈ e.modelDump := by simp [Enrichment.modelDump, hm]
  obtain ⟨v, hv, hl⟩ := lookup_feature he h "enrichment.minutes_since_last_tx" "minutes_since_last_tx" (by decide) hmem
  simp only [Feature.normalise] at hv
  split at hv
  · cases hv
  · cases hv
    exact hl

/-! ## Telling a difference -/

/-- A stored transaction of an event's user, of the same amount in the same currency. -/
def priorTransaction (event : TransactionCreatedV1) (occurredAt : Timestamp) : TransactionRecord where
  transactionId := ⟨event.transactionId.value + 1⟩
  userId := event.userId
  amount := event.amount
  currency := event.currency
  category := event.category
  occurredAt := occurredAt
  riskScore := 0
  verdict := .approved
  isFraud := false
  triggeredRules := []
  rulesVersion := ""
  rulesHash := ""
  correlationId := none
  channel := none
  country := none
  enrichment := none
  createdAt := occurredAt

theorem priorTransaction_id (event : TransactionCreatedV1) (occurredAt : Timestamp) :
    (priorTransaction event occurredAt).transactionId ≠ event.transactionId := by
  intro h
  have hvalue : event.transactionId.value + 1 = event.transactionId.value := congrArg Uuid.value h
  bv_omega

/-- An event that can be scored has a velocity and variables, in every table. -/
theorem scorable_asked (hscorable : Scorable event) (hmax : event.occurredAt ≤ datetimeMax) {window : ℕ}
    (hwindow : datetimeMin + window * 1000000 ≤ event.occurredAt) (rows : List TransactionRecord) :
    ∃ priorCount priorAmount vars, (ScoreInput.ofEvent event).velocity rows window = .ok (priorCount, priorAmount) ∧
      ((ScoreInput.ofEvent event).context priorCount priorAmount).asVariables = .ok vars := by
  obtain ⟨⟨priorCount, priorAmount⟩, hvelocity⟩ : ∃ velocity, (ScoreInput.ofEvent event).velocity rows window = .ok velocity :=
    ⟨_, TimestampsAux.velocity_eq_ok.mpr ⟨TimestampsAux.windowHeld_ofEvent hwindow hmax, rfl⟩⟩
  obtain ⟨vars, hvars⟩ := (ArithmeticAux.asVariables_ok_iff event priorCount priorAmount).mpr hscorable.2
  exact ⟨priorCount, priorAmount, vars, hvelocity, hvars⟩

/-- In the shortest window, too. -/
theorem shortest_asked (hscorable : Scorable event) (hmax : event.occurredAt ≤ datetimeMax) (rows : List TransactionRecord) :
    ∃ priorCount priorAmount vars, (ScoreInput.ofEvent event).velocity rows 1 = .ok (priorCount, priorAmount) ∧
      ((ScoreInput.ofEvent event).context priorCount priorAmount).asVariables = .ok vars := by
  have hstart : datetimeMin + (1 : ℕ) * 1000000 ≤ event.occurredAt := by simpa using hscorable.1
  exact scorable_asked hscorable hmax hstart rows

/-- A stored transaction is in the window of a request when it is in the window of the event. -/
theorem inWindow_alike (hc : Corresponds event request time) (halike : ScoresAlike event request) (hscorable : Scorable event)
    (now : AwareDatetime) (occurredAt : Timestamp) :
    InWindow (.ofRequest request now) 1 (priorTransaction event occurredAt) ↔
      InWindow (.ofEvent event) 1 (priorTransaction event occurredAt) := by
  obtain ⟨priorCount, priorAmount, vars, hvelocity, hvars⟩ :=
    shortest_asked hscorable hc.inRange [priorTransaction event occurredAt]
  obtain ⟨hvelocity', -⟩ := probe_alike halike hvelocity hvars (always_answer vars) now (by decide) always_accepted
  have hid := priorTransaction_id event occurredAt
  have hcount : ∀ input : ScoreInput, input.excludeTransactionId = event.transactionId →
      (VelocityAux.matching [priorTransaction event occurredAt] input 1).length =
        if InWindow input 1 (priorTransaction event occurredAt) then 1 else 0 := by
    intro input hexclude
    unfold VelocityAux.matching
    by_cases hin : InWindow input 1 (priorTransaction event occurredAt)
    · simp [hexclude, hid, hin]
    · simp [hin]
  have hexclude : (ScoreInput.ofRequest request now).excludeTransactionId = event.transactionId := by
    simp only [ScoreInput.excludeTransactionId, ScoreInput.ofRequest, hc.transactionId, Option.getD_some]
  have hevent := (VelocityAux.velocity_eq hvelocity).1
  have hrequest := (VelocityAux.velocity_eq hvelocity').1
  rw [hcount _ rfl] at hevent
  rw [hcount _ hexclude, hevent] at hrequest
  by_cases hin : InWindow (.ofEvent event) 1 (priorTransaction event occurredAt) <;>
    by_cases hin' : InWindow (.ofRequest request now) 1 (priorTransaction event occurredAt) <;> simp_all

/-- A request that scores as an event does has its time: a stored transaction at the later of the two windows' ends would be in
one of them only. -/
theorem time_of_alike (hc : Corresponds event request time) (halike : ScoresAlike event request) (hscorable : Scorable event) :
    time.instant = event.occurredAt := by
  have hinstant : (ScoreInput.ofRequest request time).occurredAt = time.instant := by
    unfold ScoreInput.occurredAt
    rw [wall_ofRequest hc.occurredAt, offset_ofRequest hc.occurredAt]
    rfl
  have hzero : (ScoreInput.ofEvent event).occurredAt = event.occurredAt := by
    simp [ScoreInput.occurredAt, ScoreInput.ofEvent]
  have hwindow : ∀ occurredAt : Timestamp,
      (time.instant - 1000000 ≤ occurredAt ∧ occurredAt ≤ time.instant ↔
        event.occurredAt - 1000000 ≤ occurredAt ∧ occurredAt ≤ event.occurredAt) := by
    intro occurredAt
    have halikeAt := inWindow_alike hc halike hscorable time occurredAt
    unfold InWindow at halikeAt
    rw [hinstant, hzero] at halikeAt
    simpa [priorTransaction, ScoreInput.ofRequest, ScoreInput.ofEvent, hc.userId] using halikeAt
  have hlast := (hwindow event.occurredAt).mpr ⟨by linarith, le_rfl⟩
  have hfirst := (hwindow (event.occurredAt - 1000000)).mpr ⟨le_rfl, by linarith⟩
  exact le_antisymm (by linarith [hfirst.1]) hlast.2

/-- It has its amount. -/
theorem amount_of_alike (hc : Corresponds event request time) (halike : ScoresAlike event request) (hscorable : Scorable event) :
    request.amount.value.toRat = event.amount.value.toRat := by
  obtain ⟨priorCount, priorAmount, vars, hvelocity, hvars⟩ :=
    shortest_asked hscorable hc.inRange [priorTransaction event event.occurredAt]
  have hprior : priorAmount.toRat = event.amount.value.toRat := by
    have hin : InWindow (.ofEvent event) 1 (priorTransaction event event.occurredAt) := by
      refine ⟨rfl, ?_, ?_⟩ <;> simp [ScoreInput.occurredAt, ScoreInput.ofEvent, priorTransaction]
    have hid : (priorTransaction event event.occurredAt).transactionId ≠ (ScoreInput.ofEvent event).excludeTransactionId :=
      priorTransaction_id event event.occurredAt
    have hmatching : VelocityAux.matching [priorTransaction event event.occurredAt] (.ofEvent event) 1 =
        [priorTransaction event event.occurredAt] := by
      unfold VelocityAux.matching
      simp [hin, hid]
    have hcurrency : (priorTransaction event event.occurredAt).currency = (ScoreInput.ofEvent event).currency := rfl
    rw [(VelocityAux.velocity_eq hvelocity).2, VelocityAux.sumAmounts_toRat, hmatching]
    simp only [List.filter_cons, hcurrency, decide_true, if_true, List.filter_nil, List.map_cons, List.map_nil, List.sum_cons,
      List.sum_nil, add_zero]
    rfl
  obtain ⟨hamount, hamounts⟩ := lookup_amounts hvars
  obtain ⟨-, vars', v', hvars', hanswer, htrue⟩ := probe_alike halike hvelocity hvars
    (amountIsPrior_answer hamount hamounts) time (by decide) amountIsPrior_accepted
  obtain ⟨hamount', hamounts'⟩ := lookup_amounts hvars'
  rw [amountIsPrior_answer hamount' hamounts'] at hanswer
  cases hanswer
  have hequal : event.amount.value.eqv priorAmount = true := (Decimal.eqv_iff _ _).mpr hprior.symm
  have hequal' : request.amount.value.eqv priorAmount = true := htrue.trans hequal
  rw [(Decimal.eqv_iff _ _).mp hequal', hprior]

/-- It has its flags, and its minutes: a condition that reads a feature answers alike. -/
theorem answer_of_alike (hc : Corresponds event request time) (halike : ScoresAlike event request) (hscorable : Scorable event)
    {e e' : Enrichment} (he : event.enrichment = some e) (he' : request.enrichment = some e') {condition : List (String × Json)}
    (hcondition : validateExpression (.obj condition) "condition" = .ok ()) {b b' : Bool}
    (hanswer : ∀ (context : EvaluationContext) vars, context.enrichment = e.modelDump → context.asVariables = .ok vars →
      evaluate vars (normaliseLiteral (.obj condition)) = .ok (.bool b))
    (hanswer' : ∀ (context : EvaluationContext) vars, context.enrichment = e'.modelDump → context.asVariables = .ok vars →
      evaluate vars (normaliseLiteral (.obj condition)) = .ok (.bool b')) : b' = b := by
  obtain ⟨priorCount, priorAmount, vars, hvelocity, hvars⟩ := shortest_asked hscorable hc.inRange []
  have hdump : ((ScoreInput.ofEvent event).context priorCount priorAmount).enrichment = e.modelDump := by
    simp [ScoreInput.context, ScoreInput.ofEvent, he]
  have hdump' : ((ScoreInput.ofRequest request time).context priorCount priorAmount).enrichment = e'.modelDump := by
    simp [ScoreInput.context, ScoreInput.ofRequest, he']
  obtain ⟨-, vars', v', hvars', hrequest, htrue⟩ :=
    probe_alike halike hvelocity hvars (hanswer _ _ hdump hvars) time (by decide) hcondition
  rw [hanswer' _ _ hdump' hvars'] at hrequest
  cases hrequest
  exact htrue

theorem eq_of_isSome {α : Type} {o o' : Option α} (hsome : o'.isSome = o.isSome)
    (h : ∀ a a', o = some a → o' = some a' → a' = a) : o' = o := by
  cases o with
  | none => exact Option.not_isSome_iff_eq_none.mp (by simp [hsome])
  | some a =>
    obtain ⟨a', ha'⟩ := Option.isSome_iff_exists.mp hsome
    rw [ha', h a a' rfl ha']

/-- It has its enrichment. -/
theorem enrichment_of_alike (hc : Corresponds event request time) (halike : ScoresAlike event request)
    (hscorable : Scorable event) : request.enrichment = event.enrichment := by
  have hfeatures := hc.enrichment
  cases he : event.enrichment <;> cases he' : request.enrichment <;> rw [he, he'] at hfeatures <;> cases hfeatures
  case some.some.some e e' hsame =>
    have hminutes : e'.minutesSinceLastTx = e.minutesSinceLastTx := by
      refine eq_of_isSome hsame.minutes fun n n' hm hm' => ?_
      have hequal := answer_of_alike hc halike hscorable he he' (minutesAre_accepted n)
        (fun _ _ hdump hvars => minutesAre_answer (lookup_minutes hdump hvars hm))
        (fun _ _ hdump hvars => minutesAre_answer (lookup_minutes hdump hvars hm'))
      rw [decide_eq_decide] at hequal
      exact hequal.mpr rfl
    have hflag : ∀ {name key : String}, splitDots name.toList = ["enrichment".toList, key.toList] →
        validateExpression (.obj (flag name)) "condition" = .ok () → ∀ {b b' : Bool}, (key, Feature.bool b) ∈ e.modelDump →
        (key, Feature.bool b') ∈ e'.modelDump → b' = b := by
      intro name key hs haccepted b b' hb hb'
      have hread : ∀ {e : Enrichment} {b : Bool}, (key, Feature.bool b) ∈ e.modelDump → ∀ (context : EvaluationContext) vars,
          context.enrichment = e.modelDump → context.asVariables = .ok vars →
          evaluate vars (normaliseLiteral (.obj (flag name))) = .ok (.bool b) := by
        intro e b hmem context vars hdump hvars
        obtain ⟨v, hv, hl⟩ := lookup_feature hdump hvars name key hs hmem
        cases hv
        exact flag_answer hl
      exact answer_of_alike hc halike hscorable he he' haccepted (hread hb) (hread hb')
    have hnew : e'.isNewMerchantForUser = e.isNewMerchantForUser := by
      refine eq_of_isSome hsame.newMerchant fun b b' hm hm' => ?_
      have hmem : ("is_new_merchant_for_user", Feature.bool b) ∈ e.modelDump := by simp [Enrichment.modelDump, hm]
      exact hflag (by decide) newMerchant_accepted hmem (by simp [Enrichment.modelDump, hm'])
    have htravel : e'.isTravelItineraryActive = e.isTravelItineraryActive := by
      refine eq_of_isSome hsame.travelItinerary fun b b' hm hm' => ?_
      have hmem : ("is_travel_itinerary_active", Feature.bool b) ∈ e.modelDump := by simp [Enrichment.modelDump, hm]
      exact hflag (by decide) travelItinerary_accepted hmem (by simp [Enrichment.modelDump, hm'])
    have heq : e' = e := by
      obtain ⟨d, m, s, n, t⟩ := e
      obtain ⟨d', m', s', n', t'⟩ := e'
      obtain ⟨hdistance, -, hspend, -, -⟩ := hsame
      simp only at hdistance hminutes hspend hnew htravel
      rw [hdistance, hminutes, hspend, hnew, htravel]
    rw [heq]

/-- Its windows start when the event's do. -/
theorem windows_of_alike (hc : Corresponds event request time) (halike : ScoresAlike event request)
    (hminutes : PrintsMinutes event) : WindowsStart event time := by
  intro window hone hday hstart
  have hscorable : Scorable event := ⟨le_trans (by omega) hstart, hminutes⟩
  obtain ⟨priorCount, priorAmount, vars, hvelocity, hvars⟩ := scorable_asked hscorable hc.inRange hstart []
  obtain ⟨hvelocity', -⟩ := probe_alike halike hvelocity hvars (always_answer vars) time ⟨hone, hday⟩ always_accepted
  have hwall := @wall_ofRequest request time time hc.occurredAt
  rw [← hwall]
  exact start_of_velocity hvelocity'

end ScoresAlikeAux

open ScoresAlikeAux

/-- A request that agrees with an event in all but numbers scores as it does exactly when it has the same numbers, time and flags,
if the event can be scored at all, and its windows start when the event's do. -/
theorem scoresAlike_iff {event : TransactionCreatedV1} {request : EvaluateRequest} {time : AwareDatetime}
    (hc : Corresponds event request time) :
    ScoresAlike event request ↔
      (Scorable event → SameNumbers event request time) ∧ (PrintsMinutes event → WindowsStart event time) := by
  constructor
  · intro halike
    refine ⟨fun hscorable => ?_, windows_of_alike hc halike⟩
    exact ⟨amount_of_alike hc halike hscorable, time_of_alike hc halike hscorable, enrichment_of_alike hc halike hscorable⟩
  · rintro ⟨hsame, hwindows⟩
    exact scoresAlike_of_same hc hsame hwindows

end FraudDetection
