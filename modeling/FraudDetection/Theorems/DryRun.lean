import FraudDetection.Lemmas.ScoresAlike
import FraudDetection.Theorems.Processing

/-!
# A dry run and live scoring

An event and the body of a dry run that holds the same JSON values go through two models: the event's numbers with a fraction or an
exponent are decimals, and the body's are floats; the event's time is converted to UTC, and the body's is not. Here: the dry run is
accepted and agrees with live scoring in every state exactly when those numbers survive the float, no quantity of the enrichment is
such a number, and the body's wall-clock time is as far from the first day of year 1 as the event's time in UTC.
-/

namespace FraudDetection

/-! ## The same values -/

/-- A body holds a document's values of the fields of a request, decoded with plain `json.loads`, and nothing else. -/
def SameValues (float : Decimal → PyFloat) (entries body : List (PyStr × DecimalJson)) : Prop :=
  (∀ name ∈ evaluateRequestFields, DecimalJson.lookup body name = (DecimalJson.lookup entries name).map (withFloats float)) ∧
    ∀ entry ∈ body, entry.1 ∈ evaluateRequestFields.map PyStr.ofString

/-- A value that is neither a list nor an object. -/
def IsScalar : DecimalJson → Prop
  | .arr _ | .obj _ => False
  | _ => True

/-- pydantic reads scalars only in these fields, a UUID from a string only, and no time from `null`. -/
structure EventReader.ReadsScalars (reader : EventReader) : Prop where
  uuid : ∀ {v u}, reader.uuid v = .ok u → ∃ s, v = .str s
  money : ∀ {v m}, reader.money v = .ok m → IsScalar v
  quantity : ∀ {digits places v} {q : Quantity digits places}, reader.quantity digits places v = .ok q → IsScalar v
  natural : ∀ {v n}, reader.natural v = .ok n → IsScalar v
  boolean : ∀ {v b}, reader.boolean v = .ok b → IsScalar v
  aware : ∀ {v t}, reader.aware v = .ok t → IsScalar v ∧ v ≠ .null

/-! ## Agreement -/

/-- A response says what a decision says, and the velocity it was based on. -/
def EvaluateResponse.Agrees (response : EvaluateResponse) (decision : TransactionDecision) (velocity : VelocityContext) : Prop :=
  response.riskScore = decision.riskScore ∧ response.verdict = decision.verdict ∧ response.isFraud = decision.isFraud ∧
    response.triggeredRules = decision.triggeredRules ∧ response.velocity = velocity

/-- A dry run is accepted, and agrees with the decision on the event in every state in which there is one. -/
def DryRunAgrees (reader : EventReader) (event : TransactionCreatedV1) (body : DecimalJson) : Prop :=
  (∃ request, EvaluateRequest.modelValidate reader body = .ok request) ∧
    ∀ rows ruleSet now score, scoreTransaction rows ruleSet.definition (.ofEvent event) = .ok score →
      ∃ response, Api.evaluate reader rows ruleSet now body = .ok response ∧
        response.Agrees (transactionDecision event ruleSet score) (.ofScore ruleSet score)

/-! ## What the numbers must survive -/

/-- The value under a key of an event's enrichment. -/
def enrichmentValue (entries : List (PyStr × DecimalJson)) (key : String) : Option DecimalJson :=
  match DecimalJson.lookup entries "enrichment" with
  | some (.obj fields) => DecimalJson.lookup fields key
  | _ => none

/-- A number with a fraction or an exponent that is read as `a` is also read from the float it becomes, as something that `a` is
related to. -/
def SurvivesFloat {α : Type} (float : Decimal → PyFloat) (read : DecimalJson → Except String α) (R : α → α → Prop)
    (value : Option DecimalJson) : Prop :=
  ∀ d a, value = some (.decimal d) → read (.decimal d) = .ok a → ∃ a', read (.float (float d)) = .ok a' ∧ R a a'

/-- The numbers with a fraction or an exponent that a document holds survive the float, if the event can be scored at all; no quantity
of its enrichment is one; and every window that can start before the event in UTC can start before its wall-clock time. -/
structure KeepsNumbers (reader : EventReader) (float : Decimal → PyFloat) (entries : List (PyStr × DecimalJson))
    (event : TransactionCreatedV1) : Prop where
  amount : SurvivesFloat float reader.money (fun m m' => Scorable event → m'.value.toRat = m.value.toRat)
    (DecimalJson.lookup entries "amount")
  occurredAt : SurvivesFloat float reader.aware (fun t t' => Scorable event → t'.instant = t.instant)
    (DecimalJson.lookup entries "occurred_at")
  distance : ∀ d, enrichmentValue entries "distance_from_last_tx_km" ≠ some (.decimal d)
  minutes : SurvivesFloat float reader.natural (fun n n' => Scorable event → n' = n) (enrichmentValue entries "minutes_since_last_tx")
  averageSpend : ∀ d, enrichmentValue entries "user_historical_avg_spend" ≠ some (.decimal d)
  newMerchant : SurvivesFloat float reader.boolean (fun b b' => Scorable event → b' = b)
    (enrichmentValue entries "is_new_merchant_for_user")
  travelItinerary : SurvivesFloat float reader.boolean (fun b b' => Scorable event → b' = b)
    (enrichmentValue entries "is_travel_itinerary_active")
  windows : PrintsMinutes event → ∀ value time, DecimalJson.lookup entries "occurred_at" = some value →
    reader.aware (withFloats float value) = .ok time → WindowsStart event time

namespace DryRunAux

/-! ## A dry run is its score -/

/-- A response agrees with a decision when the scores are the same. -/
theorem agrees_ofScore {event : TransactionCreatedV1} {ruleSet : RuleSet} {score score' : Score} :
    (EvaluateResponse.ofScore ruleSet score').Agrees (transactionDecision event ruleSet score) (.ofScore ruleSet score) ↔
      score' = score := by
  obtain ⟨⟨triggered, risk, verdict⟩, count, amount⟩ := score
  obtain ⟨⟨triggered', risk', verdict'⟩, count', amount'⟩ := score'
  simp only [EvaluateResponse.Agrees, EvaluateResponse.ofScore, transactionDecision, VelocityContext.ofScore,
    VelocityContext.mk.injEq, Score.mk.injEq, Assessment.mk.injEq, Assessment.isFraud, true_and]
  constructor
  · rintro ⟨rfl, rfl, -, rfl, rfl, rfl⟩
    exact ⟨⟨rfl, rfl, rfl⟩, rfl, rfl⟩
  · rintro ⟨⟨rfl, rfl, rfl⟩, rfl, rfl⟩
    exact ⟨rfl, rfl, rfl, rfl, rfl, rfl⟩

/-- The version under which a definition is active. -/
def versionOf (definition : RuleSetDefinition) : RuleSet := ⟨"fraud-default", 1, definition, "", "", "", 0⟩

/-- A dry run agrees when it is accepted and its request scores as the event does. -/
theorem dryRunAgrees_iff {reader : EventReader} {event : TransactionCreatedV1} {body : DecimalJson} :
    DryRunAgrees reader event body ↔
      ∃ request, EvaluateRequest.modelValidate reader body = .ok request ∧ ScoresAlike event request := by
  constructor
  · rintro ⟨⟨request, hrequest⟩, hagrees⟩
    refine ⟨request, hrequest, ?_⟩
    intro rows definition now score hscore
    obtain ⟨response, hresponse, hsame⟩ := hagrees rows (versionOf definition) now score hscore
    unfold Api.evaluate at hresponse
    simp only [hrequest] at hresponse
    cases hscore' : scoreTransaction rows (versionOf definition).definition (.ofRequest request now) with
    | error e =>
      rw [hscore'] at hresponse
      cases hresponse
    | ok score' =>
      rw [hscore'] at hresponse
      cases hresponse
      exact hscore'.trans (congrArg _ (agrees_ofScore.mp hsame))
  · rintro ⟨request, hrequest, halike⟩
    refine ⟨⟨request, hrequest⟩, ?_⟩
    intro rows ruleSet now score hscore
    refine ⟨.ofScore ruleSet score, ?_, agrees_ofScore.mpr rfl⟩
    unfold Api.evaluate
    simp only [hrequest, halike rows _ now score hscore]

/-! ## The same values, read twice -/

section

variable {float : Decimal → PyFloat} {entries body : List (PyStr × DecimalJson)} {name : String}

/-- The values of an object, decoded with plain `json.loads`. -/
theorem lookup_withFloats (entries : List (PyStr × DecimalJson)) (key : String) :
    DecimalJson.lookup (withFloatsEntries float entries) key = (DecimalJson.lookup entries key).map (withFloats float) := by
  unfold DecimalJson.lookup
  induction entries with
  | nil => rfl
  | cons entry entries ih =>
    obtain ⟨k, v⟩ := entry
    simp only [withFloatsEntries, List.find?_cons]
    by_cases hk : (k == PyStr.ofString key) = true
    · simp [hk]
    · simp only [hk, ih]

theorem ofReader_eq_ok {α : Type} {r : Except String α} {a : α} : Checked.ofReader r = .ok a ↔ r = .ok a := by
  cases r <;> simp [Checked.ofReader, Checked.fail]

theorem rejectFloat_eq_ok {α : Type} {check : DecimalJson → Checked α} {v : DecimalJson} {a : α} :
    rejectFloat check v = .ok a ↔ (∀ f, v ≠ .float f) ∧ check v = .ok a := by
  cases v <;> simp [rejectFloat, Checked.fail]

theorem requiredField_eq_ok {α : Type} {check : DecimalJson → Checked α} {a : α} :
    requiredField entries name check = .ok a ↔ ∃ v, DecimalJson.lookup entries name = some v ∧ check v = .ok a := by
  unfold requiredField
  cases DecimalJson.lookup entries name with
  | none => simp [Checked.fail, Checked.at]
  | some v => simp only [Checked.at_eq_ok, Option.some.injEq, exists_eq_left']

/-- A field that is given and not `null` is what its check makes of it. -/
theorem optionalField_given {α : Type} {check : DecimalJson → Checked α} {v : DecimalJson}
    (hv : DecimalJson.lookup entries name = some v) (hnull : v ≠ .null) :
    optionalField entries name check = ((check v).at name).map some := by
  obtain ⟨r, hr⟩ : ∃ r, (check v).at name = r := ⟨_, rfl⟩
  unfold optionalField
  rw [hv, hr]
  cases v with
  | null => exact absurd rfl hnull
  | _ =>
    dsimp only
    rw [hr]
    cases r with
    | ok a => rfl
    | error errors => rfl

/-- An optional field is read when it is left out, `null`, or a value that is read. -/
theorem optionalField_eq_ok {α : Type} {check : DecimalJson → Checked α} {o : Option α} :
    optionalField entries name check = .ok o ↔
      (o = none ∧ (DecimalJson.lookup entries name = none ∨ DecimalJson.lookup entries name = some .null)) ∨
        ∃ v a, o = some a ∧ DecimalJson.lookup entries name = some v ∧ v ≠ .null ∧ check v = .ok a := by
  by_cases hgiven : ∃ v, DecimalJson.lookup entries name = some v ∧ v ≠ .null
  · obtain ⟨v, hv, hnull⟩ := hgiven
    simp only [optionalField_given hv hnull, Except.map_eq_ok, Checked.at_eq_ok, hv]
    constructor
    · rintro ⟨a, ha, rfl⟩
      exact .inr ⟨v, a, rfl, rfl, hnull, ha⟩
    · rintro (⟨-, h | h⟩ | ⟨v', a, rfl, h, -, ha⟩)
      · cases h
      · exact absurd (Option.some.inj h) hnull
      · cases h
        exact ⟨a, ha, rfl⟩
  · have hmissing : DecimalJson.lookup entries name = none ∨ DecimalJson.lookup entries name = some .null := by
      cases hv : DecimalJson.lookup entries name with
      | none => exact .inl rfl
      | some v => exact .inr (congrArg some (not_not.mp fun hnull => hgiven ⟨v, hv, hnull⟩))
    have hnone : optionalField entries name check = .ok none := by
      unfold optionalField
      rcases hmissing with hv | hv <;> rw [hv]
    rw [hnone]
    constructor
    · intro h
      exact .inl ⟨(Except.ok.inj h).symm, hmissing⟩
    · rintro (⟨rfl, -⟩ | ⟨v, a, -, hv, hnull, -⟩)
      · rfl
      · exact absurd ⟨v, hv, hnull⟩ hgiven

/-! ## Texts -/

theorem checkText_str {constraints : TextConstraints} {v : DecimalJson} {text : String} (h : checkText constraints v = .ok text) :
    ∃ s, v = .str s := by
  cases v with
  | str s => exact ⟨s, rfl⟩
  | _ => cases h

section

variable {α : Type} {check : DecimalJson → Checked α} (hstr : ∀ {v a}, check v = .ok a → ∃ s, v = .str s)
  (hbody : DecimalJson.lookup body name = (DecimalJson.lookup entries name).map (withFloats float))

include hstr hbody

/-- What is read from a string is read from the body as well. -/
theorem required_kept {a : α} (h : requiredField entries name check = .ok a) : requiredField body name check = .ok a := by
  obtain ⟨v, hv, hcheck⟩ := requiredField_eq_ok.mp h
  obtain ⟨s, rfl⟩ := hstr hcheck
  rw [hv] at hbody
  exact requiredField_eq_ok.mpr ⟨_, hbody, hcheck⟩

theorem optional_of_required {a : α} (h : requiredField entries name check = .ok a) :
    optionalField body name check = .ok (some a) := by
  obtain ⟨v, hv, hcheck⟩ := requiredField_eq_ok.mp h
  obtain ⟨s, rfl⟩ := hstr hcheck
  rw [hv] at hbody
  exact optionalField_eq_ok.mpr (.inr ⟨_, a, rfl, hbody, DecimalJson.noConfusion, hcheck⟩)

theorem optional_kept {o : Option α} (h : optionalField entries name check = .ok o) : optionalField body name check = .ok o := by
  rcases optionalField_eq_ok.mp h with ⟨rfl, hv⟩ | ⟨v, a, rfl, hv, -, hcheck⟩
  · refine optionalField_eq_ok.mpr (.inl ⟨rfl, ?_⟩)
    rw [hbody]
    rcases hv with hv | hv <;> simp [hv, withFloats]
  · exact optional_of_required hstr hbody (requiredField_eq_ok.mpr ⟨v, hv, hcheck⟩)

end

/-! ## Numbers -/

/-- A scalar that is no decimal is the same in the body. -/
theorem withFloats_scalar {v : DecimalJson} (h : IsScalar v) : withFloats float v = v ∨ ∃ d, v = .decimal d := by
  cases v with
  | decimal d => exact .inr ⟨d, rfl⟩
  | arr items => exact h.elim
  | obj entries => exact h.elim
  | _ => exact .inl rfl

theorem withFloats_ne_null {v : DecimalJson} (h : v ≠ .null) : withFloats float v ≠ .null := by
  cases v with
  | null => exact absurd rfl h
  | _ => exact DecimalJson.noConfusion

/-- What is read survives the float exactly when the body's value is read as something it is related to. -/
theorem survives_iff {α : Type} {read : DecimalJson → Except String α} {R : α → α → Prop} {v : DecimalJson} {a : α}
    (hscalar : IsScalar v) (hread : read v = .ok a) (hR : R a a) :
    SurvivesFloat float read R (some v) ↔ ∃ a', read (withFloats float v) = .ok a' ∧ R a a' := by
  constructor
  · intro hsurvives
    rcases @withFloats_scalar float v hscalar with hsame | ⟨d, rfl⟩
    · rw [hsame]
      exact ⟨a, hread, hR⟩
    · exact hsurvives d a rfl hread
  · rintro ⟨a', hread', hrel⟩ d b hd hb
    cases hd
    cases hread.symm.trans hb
    exact ⟨a', hread', hrel⟩

section

variable {α : Type} {read : DecimalJson → Except String α}
  (hbody : DecimalJson.lookup body name = (DecimalJson.lookup entries name).map (withFloats float))

include hbody

/-- An optional field of the body, whose value the document holds. -/
theorem optional_body {check : DecimalJson → Checked α} {v : DecimalJson} (hv : DecimalJson.lookup entries name = some v)
    (hnull : v ≠ .null) {o : Option α} :
    optionalField body name check = .ok o ↔ ∃ a, o = some a ∧ check (withFloats float v) = .ok a := by
  rw [hv] at hbody
  rw [optionalField_eq_ok, hbody]
  simp [withFloats_ne_null hnull]

/-- A field that the document leaves out, the body leaves out. -/
theorem optional_absent {check : DecimalJson → Checked α}
    (hv : DecimalJson.lookup entries name = none ∨ DecimalJson.lookup entries name = some .null) {o : Option α} :
    optionalField body name check = .ok o ↔ o = none := by
  have habsent : DecimalJson.lookup body name = none ∨ DecimalJson.lookup body name = some .null := by
    rw [hbody]
    rcases hv with hv | hv <;> simp [hv, withFloats]
  rw [optionalField_eq_ok]
  constructor
  · rintro (⟨rfl, -⟩ | ⟨v, a, -, hv, hnull, -⟩)
    · rfl
    · rcases habsent with h | h <;> rw [h] at hv <;> cases hv
      exact absurd rfl hnull
  · intro h
    exact .inl ⟨h, habsent⟩

/-- The body has an optional field when the document does. -/
theorem optional_isSome {check check' : DecimalJson → Checked α} {o o' : Option α} (h : optionalField entries name check = .ok o)
    (h' : optionalField body name check' = .ok o') : o'.isSome = o.isSome := by
  rcases optionalField_eq_ok.mp h with ⟨rfl, hv⟩ | ⟨v, a, rfl, hv, hnull, -⟩
  · rw [(optional_absent hbody hv).mp h']
  · obtain ⟨a', rfl, -⟩ := (optional_body hbody hv hnull).mp h'
    rfl

/-- A number that may be left out survives the float exactly when the body's field is read as the same. -/
theorem optional_survives (hscalar : ∀ {v a}, read v = .ok a → IsScalar v) {P : Prop} {o : Option α}
    (h : optionalField entries name (fun v => .ofReader (read v)) = .ok o) :
    SurvivesFloat float read (fun a a' => P → a' = a) (DecimalJson.lookup entries name) ↔
      ∃ o', optionalField body name (fun v => .ofReader (read v)) = .ok o' ∧ (P → o' = o) := by
  rcases optionalField_eq_ok.mp h with ⟨rfl, hv⟩ | ⟨v, a, rfl, hv, hnull, hread⟩
  · have hsurvives : SurvivesFloat float read (fun a a' => P → a' = a) (DecimalJson.lookup entries name) := by
      intro d a hd
      rcases hv with hv | hv <;> rw [hv] at hd <;> cases hd
    exact ⟨fun _ => ⟨none, (optional_absent hbody hv).mpr rfl, fun _ => rfl⟩, fun _ => hsurvives⟩
  · rw [ofReader_eq_ok] at hread
    rw [hv, survives_iff (hscalar hread) hread fun _ => rfl]
    constructor
    · rintro ⟨a', hread', hsame⟩
      refine ⟨some a', (optional_body hbody hv hnull).mpr ⟨a', rfl, ofReader_eq_ok.mpr hread'⟩, fun hP => ?_⟩
      rw [hsame hP]
    · rintro ⟨o', ho', hsame⟩
      obtain ⟨a', rfl, hread'⟩ := (optional_body hbody hv hnull).mp ho'
      exact ⟨a', ofReader_eq_ok.mp hread', fun hP => Option.some.inj (hsame hP)⟩

/-- A quantity of an enrichment is read from the body exactly when the document's is no decimal, and then it is the same. -/
theorem optional_rejected (hscalar : ∀ {v a}, read v = .ok a → IsScalar v) {o o' : Option α}
    (h : optionalField entries name (rejectFloat fun v => .ofReader (read v)) = .ok o) :
    optionalField body name (rejectFloat fun v => .ofReader (read v)) = .ok o' ↔
      (∀ d, DecimalJson.lookup entries name ≠ some (.decimal d)) ∧ o' = o := by
  rcases optionalField_eq_ok.mp h with ⟨rfl, hv⟩ | ⟨v, a, rfl, hv, hnull, hread⟩
  · rw [optional_absent hbody hv, iff_and_self]
    rintro -
    intro d hd
    rcases hv with hv | hv <;> rw [hv] at hd <;> cases hd
  · obtain ⟨hfloat, hread⟩ := rejectFloat_eq_ok.mp hread
    rw [ofReader_eq_ok] at hread
    rw [optional_body hbody hv hnull, hv]
    rcases @withFloats_scalar float v (hscalar hread) with hsame | ⟨d, rfl⟩
    · have hdecimal : ∀ d, some v ≠ some (.decimal d) := by
        rintro d heq
        cases heq
        cases hsame
      rw [hsame]
      constructor
      · rintro ⟨a', rfl, hread'⟩
        have hread'' := ofReader_eq_ok.mp (rejectFloat_eq_ok.mp hread').2
        cases hread.symm.trans hread''
        exact ⟨hdecimal, rfl⟩
      · rintro ⟨-, rfl⟩
        exact ⟨a, rfl, rejectFloat_eq_ok.mpr ⟨hfloat, ofReader_eq_ok.mpr hread⟩⟩
    · constructor
      · rintro ⟨a', -, hread'⟩
        exact absurd rfl ((rejectFloat_eq_ok.mp hread').1 (float d))
      · rintro ⟨hdecimal, -⟩
        exact absurd rfl (hdecimal d)

end

/-! ## The enrichment -/

/-- An enrichment is read field by field. -/
theorem checkEnrichment_eq_ok {reader : EventReader} {fields : List (PyStr × DecimalJson)} {e : Enrichment} :
    checkEnrichment reader (.obj fields) = .ok e ↔
      optionalField fields "distance_from_last_tx_km" (rejectFloat fun v => .ofReader (reader.quantity 12 3 v)) =
          .ok e.distanceFromLastTxKm ∧
        optionalField fields "minutes_since_last_tx" (fun v => .ofReader (reader.natural v)) = .ok e.minutesSinceLastTx ∧
        optionalField fields "user_historical_avg_spend" (rejectFloat fun v => .ofReader (reader.quantity 18 2 v)) =
          .ok e.userHistoricalAvgSpend ∧
        optionalField fields "is_new_merchant_for_user" (fun v => .ofReader (reader.boolean v)) = .ok e.isNewMerchantForUser ∧
        optionalField fields "is_travel_itinerary_active" (fun v => .ofReader (reader.boolean v)) =
          .ok e.isTravelItineraryActive := by
  unfold checkEnrichment
  rw [Except.bind_eq_ok]
  constructor
  · rintro ⟨⟨⟨⟨⟨distance, minutes⟩, spend⟩, merchant⟩, travel⟩, h, he⟩
    cases he
    simp only [Checked.both_eq_ok] at h
    obtain ⟨⟨⟨⟨hdistance, hminutes⟩, hspend⟩, hmerchant⟩, htravel⟩ := h
    exact ⟨hdistance, hminutes, hspend, hmerchant, htravel⟩
  · rintro ⟨hdistance, hminutes, hspend, hmerchant, htravel⟩
    refine ⟨⟨⟨⟨⟨e.distanceFromLastTxKm, e.minutesSinceLastTx⟩, e.userHistoricalAvgSpend⟩, e.isNewMerchantForUser⟩,
      e.isTravelItineraryActive⟩, ?_, rfl⟩
    simp only [Checked.both_eq_ok]
    exact ⟨⟨⟨⟨hdistance, hminutes⟩, hspend⟩, hmerchant⟩, htravel⟩

section

variable {reader : EventReader} (hreader : reader.ReadsScalars) {fields : List (PyStr × DecimalJson)} {e e' : Enrichment}

include hreader

/-- An enrichment that both models read has the same features and quantities in both. -/
theorem enrichment_same (he : checkEnrichment reader (.obj fields) = .ok e)
    (he' : checkEnrichment reader (.obj (withFloatsEntries float fields)) = .ok e') : SameFeatures e e' := by
  obtain ⟨hdistance, hminutes, hspend, hmerchant, htravel⟩ := checkEnrichment_eq_ok.mp he
  obtain ⟨hdistance', hminutes', hspend', hmerchant', htravel'⟩ := checkEnrichment_eq_ok.mp he'
  have hbody := @lookup_withFloats float fields
  exact {
    distance := ((optional_rejected (hbody _) hreader.quantity hdistance).mp hdistance').2
    minutes := optional_isSome (hbody _) hminutes hminutes'
    averageSpend := ((optional_rejected (hbody _) hreader.quantity hspend).mp hspend').2
    newMerchant := optional_isSome (hbody _) hmerchant hmerchant'
    travelItinerary := optional_isSome (hbody _) htravel htravel' }

/-- An enrichment survives the floats exactly when its minutes and its flags do, and no quantity of it is a decimal. -/
theorem enrichment_survives (he : checkEnrichment reader (.obj fields) = .ok e) {P : Prop} :
    (∃ e', checkEnrichment reader (.obj (withFloatsEntries float fields)) = .ok e' ∧ (P → e' = e)) ↔
      (∀ d, DecimalJson.lookup fields "distance_from_last_tx_km" ≠ some (.decimal d)) ∧
        SurvivesFloat float reader.natural (fun n n' => P → n' = n) (DecimalJson.lookup fields "minutes_since_last_tx") ∧
        (∀ d, DecimalJson.lookup fields "user_historical_avg_spend" ≠ some (.decimal d)) ∧
        SurvivesFloat float reader.boolean (fun b b' => P → b' = b) (DecimalJson.lookup fields "is_new_merchant_for_user") ∧
        SurvivesFloat float reader.boolean (fun b b' => P → b' = b) (DecimalJson.lookup fields "is_travel_itinerary_active") := by
  obtain ⟨hdistance, hminutes, hspend, hmerchant, htravel⟩ := checkEnrichment_eq_ok.mp he
  have hbody := @lookup_withFloats float fields
  rw [optional_survives (hbody _) hreader.natural hminutes, optional_survives (hbody _) hreader.boolean hmerchant,
    optional_survives (hbody _) hreader.boolean htravel]
  constructor
  · rintro ⟨e', he', hsame⟩
    obtain ⟨hdistance', hminutes', hspend', hmerchant', htravel'⟩ := checkEnrichment_eq_ok.mp he'
    refine ⟨((optional_rejected (hbody _) hreader.quantity hdistance).mp hdistance').1, ⟨_, hminutes', fun hP => ?_⟩,
      ((optional_rejected (hbody _) hreader.quantity hspend).mp hspend').1, ⟨_, hmerchant', fun hP => ?_⟩,
      ⟨_, htravel', fun hP => ?_⟩⟩
    · rw [hsame hP]
    · rw [hsame hP]
    · rw [hsame hP]
  · rintro ⟨hdistance', ⟨minutes, hminutes', hm⟩, hspend', ⟨merchant, hmerchant', hb⟩, ⟨travel, htravel', ht⟩⟩
    refine ⟨⟨e.distanceFromLastTxKm, minutes, e.userHistoricalAvgSpend, merchant, travel⟩, checkEnrichment_eq_ok.mpr ?_,
      fun hP => ?_⟩
    · exact ⟨(optional_rejected (hbody _) hreader.quantity hdistance).mpr ⟨hdistance', rfl⟩, hminutes',
        (optional_rejected (hbody _) hreader.quantity hspend).mpr ⟨hspend', rfl⟩, hmerchant', htravel'⟩
    · rw [hm hP, hb hP, ht hP]

/-- The enrichment of the body, where the document has one. -/
theorem enrichment_body {o o' : Option Enrichment} (h : optionalField entries "enrichment" (checkEnrichment reader) = .ok o)
    (hbody : DecimalJson.lookup body "enrichment" = (DecimalJson.lookup entries "enrichment").map (withFloats float))
    (h' : optionalField body "enrichment" (checkRequestEnrichment reader) = .ok o') : Option.Rel SameFeatures o o' := by
  rcases optionalField_eq_ok.mp h with ⟨rfl, hv⟩ | ⟨v, e, rfl, hv, hnull, he⟩
  · rw [(optional_absent hbody hv).mp h']
    exact .none
  · obtain ⟨e', rfl, he'⟩ := (optional_body hbody hv hnull).mp h'
    cases v with
    | obj fields => exact .some (enrichment_same hreader he he')
    | _ => cases he

/-- It survives the floats under the same conditions. -/
theorem enrichmentField_survives {o : Option Enrichment}
    (h : optionalField entries "enrichment" (checkEnrichment reader) = .ok o)
    (hbody : DecimalJson.lookup body "enrichment" = (DecimalJson.lookup entries "enrichment").map (withFloats float)) {P : Prop} :
    (∃ o', optionalField body "enrichment" (checkRequestEnrichment reader) = .ok o' ∧ (P → o' = o)) ↔
      (∀ d, enrichmentValue entries "distance_from_last_tx_km" ≠ some (.decimal d)) ∧
        SurvivesFloat float reader.natural (fun n n' => P → n' = n) (enrichmentValue entries "minutes_since_last_tx") ∧
        (∀ d, enrichmentValue entries "user_historical_avg_spend" ≠ some (.decimal d)) ∧
        SurvivesFloat float reader.boolean (fun b b' => P → b' = b) (enrichmentValue entries "is_new_merchant_for_user") ∧
        SurvivesFloat float reader.boolean (fun b b' => P → b' = b) (enrichmentValue entries "is_travel_itinerary_active") := by
  rcases optionalField_eq_ok.mp h with ⟨rfl, hv⟩ | ⟨v, e, rfl, hv, hnull, he⟩
  · have hnone : ∀ key, enrichmentValue entries key = none := by
      intro key
      unfold enrichmentValue
      rcases hv with hv | hv <;> rw [hv]
    simp only [hnone, optional_absent hbody hv]
    simp [SurvivesFloat]
  · cases v with
    | obj fields =>
      have hfields : ∀ key, enrichmentValue entries key = DecimalJson.lookup fields key := by
        intro key
        unfold enrichmentValue
        rw [hv]
      simp only [hfields, ← enrichment_survives hreader he, optional_body hbody hv hnull]
      constructor
      · rintro ⟨o', ⟨e', rfl, he'⟩, hsame⟩
        exact ⟨e', he', fun hP => Option.some.inj (hsame hP)⟩
      · rintro ⟨e', he', hsame⟩
        exact ⟨some e', ⟨e', rfl, he'⟩, fun hP => congrArg some (hsame hP)⟩
    | _ => cases he

end

/-! ## The event and the request, field by field -/

/-- An event that was parsed was read field by field, its time converted to UTC. -/
theorem parseDocument_fields {reader : EventReader} {event : TransactionCreatedV1}
    (h : parseDocument reader (.obj entries) = .ok event) :
    requiredField entries "transaction_id" (fun v => .ofReader (reader.uuid v)) = .ok event.transactionId ∧
      requiredField entries "user_id" (fun v => .ofReader (reader.uuid v)) = .ok event.userId ∧
      requiredField entries "amount" (rejectFloat fun v => .ofReader (reader.money v)) = .ok event.amount ∧
      requiredField entries "currency" (checkText currencyConstraints) = .ok event.currency ∧
      requiredField entries "category" (checkText categoryConstraints) = .ok event.category ∧
      (∃ time, requiredField entries "occurred_at" (fun v => .ofReader (reader.aware v)) = .ok time ∧
        time.astimezone = some event.occurredAt) ∧
      optionalField entries "channel" (checkText channelConstraints) = .ok event.channel ∧
      optionalField entries "country" (checkText countryConstraints) = .ok event.country ∧
      optionalField entries "enrichment" (checkEnrichment reader) = .ok event.enrichment := by
  have hvalid : TransactionCreatedV1.modelValidate reader entries = some (.ok event) := by
    unfold parseDocument at h
    simp only at h
    split at h
    · cases h
    · cases h
    · split at h
      · cases h
      · rename_i hvalid
        cases h
        exact hvalid
      · cases h
  obtain ⟨occurredAt, htime, hfields⟩ := Option.map_eq_some_iff.mp hvalid
  unfold checkFields at hfields
  obtain ⟨p, hp, hevent⟩ := Except.bind_eq_ok.mp hfields
  obtain ⟨⟨⟨⟨⟨⟨⟨⟨⟨⟨⟨v, kind⟩, id⟩, user⟩, amount⟩, currency⟩, category⟩, time⟩, channel⟩, country⟩, correlation⟩, enrichment⟩ := p
  simp only [Checked.both_eq_ok] at hp
  obtain ⟨⟨⟨⟨⟨⟨⟨⟨⟨⟨⟨-, -⟩, hid⟩, huser⟩, hamount⟩, hcurrency⟩, hcategory⟩, hoccurred⟩, hchannel⟩, hcountry⟩, -⟩, henrichment⟩ := hp
  cases hevent
  cases hoccurred
  refine ⟨hid, huser, hamount, hcurrency, hcategory, ?_, hchannel, hcountry, henrichment⟩
  unfold checkOccurredAt at htime
  split at htime
  · cases htime
  · rename_i aware haware
    obtain ⟨utc, hutc, hok⟩ := Option.map_eq_some_iff.mp htime
    cases hok
    exact ⟨aware, haware, hutc⟩

/-- A request is read field by field. -/
theorem modelValidate_eq_ok {reader : EventReader} {request : EvaluateRequest} :
    EvaluateRequest.modelValidate reader (.obj body) = .ok request ↔
      requiredField body "user_id" (fun v => .ofReader (reader.uuid v)) = .ok request.userId ∧
        requiredField body "amount" (fun v => .ofReader (reader.money v)) = .ok request.amount ∧
        requiredField body "currency" (checkText currencyConstraints) = .ok request.currency ∧
        requiredField body "category" (checkText categoryConstraints) = .ok request.category ∧
        optionalField body "occurred_at" (fun v => .ofReader (reader.aware v)) = .ok request.occurredAt ∧
        optionalField body "channel" (checkText channelConstraints) = .ok request.channel ∧
        optionalField body "country" (checkText countryConstraints) = .ok request.country ∧
        optionalField body "enrichment" (checkRequestEnrichment reader) = .ok request.enrichment ∧
        optionalField body "transaction_id" (fun v => .ofReader (reader.uuid v)) = .ok request.transactionId ∧
        checkExtraKeys body evaluateRequestFields = .ok () := by
  simp only [EvaluateRequest.modelValidate, Checked.at_eq_ok]
  rw [Except.bind_eq_ok]
  constructor
  · rintro ⟨⟨⟨⟨⟨⟨⟨⟨⟨⟨user, amount⟩, currency⟩, category⟩, time⟩, channel⟩, country⟩, enrichment⟩, id⟩, extra⟩, h, hrequest⟩
    cases hrequest
    simp only [Checked.both_eq_ok] at h
    obtain ⟨⟨⟨⟨⟨⟨⟨⟨⟨huser, hamount⟩, hcurrency⟩, hcategory⟩, htime⟩, hchannel⟩, hcountry⟩, henrichment⟩, hid⟩, hextra⟩ := h
    exact ⟨huser, hamount, hcurrency, hcategory, htime, hchannel, hcountry, henrichment, hid, hextra⟩
  · rintro ⟨huser, hamount, hcurrency, hcategory, htime, hchannel, hcountry, henrichment, hid, hextra⟩
    refine ⟨⟨⟨⟨⟨⟨⟨⟨⟨⟨request.userId, request.amount⟩, request.currency⟩, request.category⟩, request.occurredAt⟩,
      request.channel⟩, request.country⟩, request.enrichment⟩, request.transactionId⟩, ()⟩, ?_, rfl⟩
    simp only [Checked.both_eq_ok]
    exact ⟨⟨⟨⟨⟨⟨⟨⟨⟨huser, hamount⟩, hcurrency⟩, hcategory⟩, htime⟩, hchannel⟩, hcountry⟩, henrichment⟩, hid⟩, hextra⟩

/-- A body that holds nothing else has no extra key. -/
theorem noExtraKeys (h : ∀ entry ∈ body, entry.1 ∈ evaluateRequestFields.map PyStr.ofString) :
    checkExtraKeys body evaluateRequestFields = .ok () := by
  have hnil : (body.filter fun entry => entry.1 ∉ evaluateRequestFields.map PyStr.ofString) = [] := by
    refine List.filter_eq_nil_iff.mpr fun entry hm => ?_
    simp only [decide_eq_true_eq, not_not]
    exact h entry hm
  unfold checkExtraKeys
  rw [hnil]

section

variable {reader : EventReader} (hreader : reader.ReadsScalars) {event : TransactionCreatedV1}
  (hparse : parseDocument reader (.obj entries) = .ok event) (hbody : SameValues float entries body)

include hreader hparse

/-- The amount and the time of an event are read from scalars, and the time's is not `null`. -/
theorem event_scalars : (∃ v, DecimalJson.lookup entries "amount" = some v ∧ IsScalar v ∧ reader.money v = .ok event.amount) ∧
    ∃ v time, DecimalJson.lookup entries "occurred_at" = some v ∧ IsScalar v ∧ v ≠ .null ∧ reader.aware v = .ok time ∧
      time.instant = event.occurredAt ∧ event.occurredAt ≤ datetimeMax := by
  obtain ⟨-, -, hamount, -, -, ⟨time, htime, hutc⟩, -, -, -⟩ := parseDocument_fields hparse
  obtain ⟨v, hv, hread⟩ := requiredField_eq_ok.mp hamount
  obtain ⟨w, hw, hread'⟩ := requiredField_eq_ok.mp htime
  have hmoney := ofReader_eq_ok.mp (rejectFloat_eq_ok.mp hread).2
  have haware := ofReader_eq_ok.mp hread'
  obtain ⟨hscalar, hnull⟩ := hreader.aware haware
  obtain ⟨hrange, hinstant⟩ := TimestampsAux.datetimeOf_eq_some.mp hutc
  exact ⟨⟨v, hv, hreader.money hmoney, hmoney⟩, w, time, hw, hscalar, hnull, haware, hinstant.symm, hinstant ▸ hrange.2⟩

include hbody

/-- A request that is read from the body corresponds to the event. -/
theorem corresponds {request : EvaluateRequest} (h : EvaluateRequest.modelValidate reader (.obj body) = .ok request) :
    ∃ value time, DecimalJson.lookup entries "occurred_at" = some value ∧ reader.aware (withFloats float value) = .ok time ∧
      Corresponds event request time := by
  obtain ⟨hid, huser, -, hcurrency, hcategory, -, hchannel, hcountry, henrichment⟩ := parseDocument_fields hparse
  obtain ⟨huser', -, hcurrency', hcategory', htime', hchannel', hcountry', henrichment', hid', -⟩ := modelValidate_eq_ok.mp h
  obtain ⟨-, value, -, hvalue, -, hnull, -, -, hmax⟩ := event_scalars hreader hparse
  have hsame := hbody.1
  have huuid : ∀ {v u}, Checked.ofReader (reader.uuid v) = .ok u → ∃ s, v = .str s :=
    fun hread => hreader.uuid (ofReader_eq_ok.mp hread)
  obtain ⟨time, htime, haware⟩ := (optional_body (hsame "occurred_at" (by decide)) hvalue hnull).mp htime'
  refine ⟨value, time, hvalue, ofReader_eq_ok.mp haware, ?_⟩
  exact {
    transactionId := Except.ok.inj (hid'.symm.trans (optional_of_required huuid (hsame _ (by decide)) hid))
    userId := Except.ok.inj (huser'.symm.trans (required_kept huuid (hsame _ (by decide)) huser))
    currency := Except.ok.inj (hcurrency'.symm.trans (required_kept checkText_str (hsame _ (by decide)) hcurrency))
    category := Except.ok.inj (hcategory'.symm.trans (required_kept checkText_str (hsame _ (by decide)) hcategory))
    channel := Except.ok.inj (hchannel'.symm.trans (optional_kept checkText_str (hsame _ (by decide)) hchannel))
    country := Except.ok.inj (hcountry'.symm.trans (optional_kept checkText_str (hsame _ (by decide)) hcountry))
    occurredAt := htime
    enrichment := enrichment_body hreader henrichment (hsame _ (by decide)) henrichment'
    inRange := hmax }

/-- A dry run that agrees keeps the numbers. -/
theorem keepsNumbers_of_agrees (h : DryRunAgrees reader event (.obj body)) : KeepsNumbers reader float entries event := by
  obtain ⟨request, hrequest, halike⟩ := dryRunAgrees_iff.mp h
  obtain ⟨value, time, hvalue, htime, hc⟩ := corresponds hreader hparse hbody hrequest
  obtain ⟨hsame, hwindows⟩ := (scoresAlike_iff hc).mp halike
  obtain ⟨-, -, -, -, -, -, -, -, henrichment⟩ := parseDocument_fields hparse
  obtain ⟨-, hamount', -, -, -, -, -, henrichment', -, -⟩ := modelValidate_eq_ok.mp hrequest
  obtain ⟨⟨v, hv, hscalar, hmoney⟩, w, time', hw, hscalar', -, haware, hinstant, -⟩ := event_scalars hreader hparse
  obtain ⟨hdistance, hminutes, hspend, hmerchant, htravel⟩ :=
    (enrichmentField_survives hreader henrichment (hbody.1 _ (by decide))).mp
      ⟨request.enrichment, henrichment', fun hscorable => (hsame hscorable).enrichment⟩
  have hmoney' : reader.money (withFloats float v) = .ok request.amount := by
    obtain ⟨v', hv', hread⟩ := requiredField_eq_ok.mp hamount'
    rw [hbody.1 "amount" (by decide), hv] at hv'
    cases hv'
    exact ofReader_eq_ok.mp hread
  cases hvalue.symm.trans hw
  exact {
    amount := by
      rw [hv, survives_iff hscalar hmoney fun _ => rfl]
      exact ⟨request.amount, hmoney', fun hscorable => (hsame hscorable).amount⟩
    occurredAt := by
      rw [hw, survives_iff hscalar' haware fun _ => rfl]
      exact ⟨time, htime, fun hscorable => (hsame hscorable).occurredAt.trans hinstant.symm⟩
    distance := hdistance
    minutes := hminutes
    averageSpend := hspend
    newMerchant := hmerchant
    travelItinerary := htravel
    windows := by
      intro hprints value' time'' hvalue' htime''
      cases hvalue.symm.trans hvalue'
      cases htime.symm.trans htime''
      exact hwindows hprints }

/-- A dry run whose numbers are kept agrees. -/
theorem agrees_of_keepsNumbers (h : KeepsNumbers reader float entries event) : DryRunAgrees reader event (.obj body) := by
  obtain ⟨hid, huser, -, hcurrency, hcategory, -, hchannel, hcountry, henrichment⟩ := parseDocument_fields hparse
  obtain ⟨⟨v, hv, hscalar, hmoney⟩, w, time', hw, hscalar', hnull, haware, hinstant, -⟩ := event_scalars hreader hparse
  have hsame := hbody.1
  have huuid : ∀ {v u}, Checked.ofReader (reader.uuid v) = .ok u → ∃ s, v = .str s :=
    fun hread => hreader.uuid (ofReader_eq_ok.mp hread)
  have hamounts := h.amount
  rw [hv, survives_iff hscalar hmoney fun _ => rfl] at hamounts
  obtain ⟨amount, hmoney', hamount⟩ := hamounts
  have htimes := h.occurredAt
  rw [hw, survives_iff hscalar' haware fun _ => rfl] at htimes
  obtain ⟨time, haware', htime⟩ := htimes
  obtain ⟨enrichment, henrichment', hfeatures⟩ :=
    (enrichmentField_survives hreader henrichment (hsame _ (by decide))).mpr
      ⟨h.distance, h.minutes, h.averageSpend, h.newMerchant, h.travelItinerary⟩
  have hamount' : DecimalJson.lookup body "amount" = some (withFloats float v) := by
    rw [hsame _ (by decide), hv, Option.map_some]
  let request : EvaluateRequest :=
    { userId := event.userId, amount, currency := event.currency, category := event.category, occurredAt := some time,
      channel := event.channel, country := event.country, enrichment, transactionId := some event.transactionId }
  have hrequest : EvaluateRequest.modelValidate reader (.obj body) = .ok request :=
    modelValidate_eq_ok.mpr ⟨required_kept huuid (hsame _ (by decide)) huser,
      requiredField_eq_ok.mpr ⟨_, hamount', ofReader_eq_ok.mpr hmoney'⟩,
      required_kept checkText_str (hsame _ (by decide)) hcurrency, required_kept checkText_str (hsame _ (by decide)) hcategory,
      (optional_body (hsame "occurred_at" (by decide)) hw hnull).mpr ⟨time, rfl, ofReader_eq_ok.mpr haware'⟩,
      optional_kept checkText_str (hsame _ (by decide)) hchannel, optional_kept checkText_str (hsame _ (by decide)) hcountry,
      henrichment', optional_of_required huuid (hsame _ (by decide)) hid, noExtraKeys hbody.2⟩
  obtain ⟨value, time'', hvalue, htime'', hc⟩ := corresponds hreader hparse hbody hrequest
  cases Option.some.inj hc.occurredAt
  refine dryRunAgrees_iff.mpr ⟨request, hrequest, (scoresAlike_iff hc).mpr ⟨fun hscorable => ?_, fun hprints => ?_⟩⟩
  · exact ⟨hamount hscorable, (htime hscorable).trans hinstant, hfeatures hscorable⟩
  · exact h.windows hprints value time hvalue htime''

end

end

end DryRunAux

open DryRunAux

/-- For every message that `parse_transaction_event` accepts and every body that holds its values: the dry run is accepted and agrees
with live scoring in every table and under every version of a rule set exactly when the numbers are kept. -/
theorem dryRun_agrees_iff {reader : EventReader} (hreader : reader.ReadsScalars) (float : Decimal → PyFloat) {levels : ℕ}
    {raw : List UInt8} {entries body : List (PyStr × DecimalJson)} (hloads : JsonDecode.loads levels raw = .ok (.obj entries))
    {event : TransactionCreatedV1} (hparse : parseTransactionEvent reader levels (some raw) = .ok event)
    (hbody : SameValues float entries body) :
    DryRunAgrees reader event (.obj body) ↔ KeepsNumbers reader float entries event := by
  have hdocument : parseDocument reader (.obj entries) = .ok event := by
    unfold parseTransactionEvent at hparse
    simp only [hloads] at hparse
    split_ifs at hparse
    exact hparse
  constructor
  · exact keepsNumbers_of_agrees hreader hdocument hbody
  · exact agrees_of_keepsNumbers hreader hdocument hbody

namespace DryRunExample

open JsonDecode ProcessingExample

/-- `{"distance_from_last_tx_km": 5.2}`. -/
def enrichmentText : PyStr :=
  0x7B :: (JsonDecode.dumpsString (PyStr.ofString "distance_from_last_tx_km") ++ [0x3A, 0x20, 0x35, 0x2E, 0x32, 0x7D])

/-- What follows the text fields of the event. -/
def lastFields : PyStr :=
  JsonDecode.dumpsString (PyStr.ofString "enrichment") ++ 0x3A :: 0x20 :: (enrichmentText ++ 0x2C :: 0x20 :: versionText)

/-- The fields of the event, as JSON. -/
def eventFields : PyStr := (fields.flatMap fun field => fieldText field ++ [0x2C, 0x20]) ++ lastFields

/-- An event 5.2 km from the one before, as JSON. -/
def eventDocument : PyStr := 0x7B :: eventFields

/-- Its enrichment, as the event parser decodes it. -/
def features : List (PyStr × DecimalJson) := [(PyStr.ofString "distance_from_last_tx_km", .decimal ⟨52, -1⟩)]

/-- What it decodes to. -/
def eventEntries : List (PyStr × DecimalJson) :=
  fields.map (fun field => (PyStr.ofString field.1, .str (PyStr.ofString field.2))) ++
    [(PyStr.ofString "enrichment", .obj features), (PyStr.ofString "schema_version", .int 1)]

/-- `lastFields`, after its first quote. -/
def afterEnrichment : PyStr :=
  PyStr.ofString "enrichment" ++ 0x22 :: 0x3A :: 0x20 :: (enrichmentText ++ 0x2C :: 0x20 :: versionText)

/-- The bytes of the event. -/
def raw : List UInt8 := eventDocument.map UInt8.ofNat

/-- 5.2 km. -/
def distance : Quantity 12 3 := ⟨⟨52, -1⟩, 5200, by decide, by norm_num [Decimal.toRat]⟩

/-- A reader that reads what the event has, and refuses every other value. -/
def reader : EventReader :=
  { eventReader with
    quantity := fun digits places v =>
      match digits, places, v with
      | 12, 3, .decimal d =>
        if d = ⟨52, -1⟩ then .ok distance else .error "Decimal input should be an integer, float, string or Decimal object"
      | _, _, _ => .error "Decimal input should be an integer, float, string or Decimal object" }

/-- The event. -/
def event : TransactionCreatedV1 :=
  { VelocityExample.event with enrichment := some ⟨some distance, none, none, none, none⟩ }

/-- The float that `5.2` becomes. -/
def readFloat (d : Decimal) : PyFloat :=
  if d = ⟨52, -1⟩ then .finite ⟨false, 52, -1, .inr (by decide), by decide⟩ else .nan

/-- The body of a dry run of the event. -/
def requestBody : List (PyStr × DecimalJson) :=
  (fields.tail.map fun field => (PyStr.ofString field.1, .str (PyStr.ofString field.2))) ++
    [(PyStr.ofString "enrichment", .obj (withFloatsEntries readFloat features))]

theorem eventDocument_ascii : ∀ c ∈ eventDocument, c < 0x80 := by decide +kernel

theorem eventFields_length : eventFields.length = 314 := by decide +kernel

theorem distance_plain : ∀ c ∈ PyStr.ofString "distance_from_last_tx_km", c ≠ 0x22 ∧ c ≠ 0x5C ∧ 0x1F < c := by decide

theorem enrichment_plain : ∀ c ∈ PyStr.ofString "enrichment", c ≠ 0x22 ∧ c ≠ 0x5C ∧ 0x1F < c := by decide

theorem scan_distance (levels : ℕ) (rest : PyStr) :
    scanOnceWith parseDecimal levels (0x35 :: 0x2E :: 0x32 :: 0x7D :: rest) = .ok (.decimal ⟨52, -1⟩, 0x7D :: rest) := by
  have hconstant : scanConstant (0x35 :: 0x2E :: 0x32 :: 0x7D :: rest) = none := by rfl
  have hwhole : scanWhole (0x35 :: 0x2E :: 0x32 :: 0x7D :: rest) = ([0x35], 0x2E :: 0x32 :: 0x7D :: rest) := by rfl
  have hfraction : scanFraction (0x2E :: 0x32 :: 0x7D :: rest) = ([0x32], 0x7D :: rest) := by rfl
  have hexponent : scanExponent (0x7D :: rest) = (none, 0x7D :: rest) := by rfl
  have hdecimal : parseDecimal false [0x35, 0x32] (-1) = .ok (.decimal ⟨52, -1⟩) := by rfl
  have hnumber : scanNumberWith parseDecimal (0x35 :: 0x2E :: 0x32 :: 0x7D :: rest) = .ok (.decimal ⟨52, -1⟩, 0x7D :: rest) := by
    rw [show scanNumberWith parseDecimal (0x35 :: 0x2E :: 0x32 :: 0x7D :: rest) = scanUnsignedWith parseDecimal false (0x35 :: 0x2E :: 0x32 :: 0x7D :: rest) by rfl]
    unfold scanUnsignedWith
    simp only [hwhole, hfraction, hexponent]
    simp [hdecimal]
  unfold scanOnceWith
  simp only [show ¬(0x35 = 0x22) by decide, show ¬(0x35 = 0x5B ∨ 0x35 = 0x7B) by decide, if_false, hconstant, hnumber]

theorem scan_enrichment (levels : ℕ) (rest : PyStr) :
    scanOnceWith parseDecimal (levels + 1) (enrichmentText ++ rest) = .ok (.obj features, rest) := by
  have hquote : enrichmentText ++ rest = 0x7B :: 0x22 :: (PyStr.ofString "distance_from_last_tx_km" ++
      0x22 :: 0x3A :: 0x20 :: 0x35 :: 0x2E :: 0x32 :: 0x7D :: rest) := by
    simp [enrichmentText, JsonDecode.dumpsString]
  rw [hquote]
  refine JsonDecode.scanOnce_object ?_
  have hentry := JsonDecode.scanEntries_value distance_plain (by decide) (scan_distance levels rest) (by decide)
  have hkey : 0x22 :: (PyStr.ofString "distance_from_last_tx_km" ++ 0x22 :: 0x3A :: 0x20 :: 0x35 :: 0x2E :: 0x32 :: 0x7D :: rest) =
      JsonDecode.dumpsString (PyStr.ofString "distance_from_last_tx_km") ++ 0x3A :: 0x20 :: 0x35 :: 0x2E :: 0x32 :: 0x7D :: rest := by
    simp [JsonDecode.dumpsString]
  rw [hkey, hentry, if_pos rfl]
  rfl

theorem scan_lastFields (levels fuel : ℕ) (before : List (PyStr × DecimalJson)) :
    scanEntries (scanOnceWith parseDecimal (levels + 1)) (fuel + 2) before (0x22 :: afterEnrichment) =
      .ok (setEntry (PyStr.ofString "schema_version") (.int 1)
        (setEntry (PyStr.ofString "enrichment") (.obj features) before), []) := by
  have hscan := scan_enrichment levels (0x2C :: 0x20 :: versionText)
  have htext : 0x22 :: afterEnrichment = JsonDecode.dumpsString (PyStr.ofString "enrichment") ++
      0x3A :: 0x20 :: (enrichmentText ++ 0x2C :: 0x20 :: versionText) := by
    simp [afterEnrichment, JsonDecode.dumpsString]
  have hspace : skipSpace (0x20 :: versionText) = 0x22 :: afterQuote := by
    rw [JsonDecode.skipSpace_space, versionText_eq]
    exact JsonDecode.skipSpace_cons (by decide) _
  rw [htext]
  unfold enrichmentText at hscan ⊢
  rw [List.cons_append] at hscan ⊢
  rw [JsonDecode.scanEntries_value enrichment_plain (by decide) hscan (by decide), if_neg (by decide), if_pos rfl, hspace,
    scan_version]

theorem eventEntries_eq : setEntry (PyStr.ofString "schema_version") (.int 1)
    (setEntry (PyStr.ofString "enrichment") (.obj features) (fields.foldl
      (fun entries field => setEntry (PyStr.ofString field.1) (.str (PyStr.ofString field.2)) entries) [])) = eventEntries := by
  rfl

theorem scan_eventFields (levels : ℕ) :
    scanEntries (scanOnceWith parseDecimal (levels + 1)) (eventFields.length + 1) [] eventFields = .ok (eventEntries, []) := by
  have hlength : 8 ≤ eventFields.length := by
    rw [eventFields_length]
    decide
  obtain ⟨n, hn⟩ := Nat.exists_eq_add_of_le hlength
  have hlast : lastFields = 0x22 :: afterEnrichment := by
    simp [lastFields, afterEnrichment, JsonDecode.dumpsString]
  have hfuel : eventFields.length + 1 = n + 2 + fields.length := by
    rw [hn, show fields.length = 7 from rfl]
    omega
  rw [hfuel]
  unfold eventFields
  rw [hlast, scan_fields fields_plain, scan_lastFields, eventEntries_eq]

theorem raw_loads : loads 1000 raw = .ok (.obj eventEntries) := by
  obtain ⟨text, htext⟩ : ∃ text, eventFields = 0x22 :: text := ⟨_, rfl⟩
  have hascii := eventDocument_ascii
  have hscan := scan_eventFields 998
  unfold raw
  unfold eventDocument at hascii ⊢
  rw [htext] at hascii hscan ⊢
  exact JsonDecode.loads_ascii (by decide) (by decide) (by decide) hascii (JsonDecode.scanOnce_object hscan)

theorem readsScalars : reader.ReadsScalars where
  uuid {v u} h := by
    cases v with
    | str s => exact ⟨s, rfl⟩
    | _ => cases h
  money {v m} h := by
    cases v with
    | str s => trivial
    | _ => cases h
  quantity {digits places v q} h := by
    cases v with
    | decimal d => trivial
    | _ => simp [reader] at h
  natural {v n} h := by cases h
  boolean {v b} h := by cases h
  aware {v t} h := by
    cases v with
    | str s => exact ⟨trivial, DecimalJson.noConfusion⟩
    | _ => cases h

theorem modelValidate_event : TransactionCreatedV1.modelValidate reader eventEntries = some (.ok event) := by
  rfl

theorem parse_event : parseDocument reader (.obj eventEntries) = .ok event := by
  have hversion : supportedVersion (DecimalJson.lookup eventEntries "schema_version") = some true := by decide
  simp only [parseDocument, hversion, modelValidate_event]

theorem parse_raw : parseTransactionEvent reader 1000 (some raw) = .ok event := by
  have hlength : eventDocument.length < maxEventBytes := by
    unfold eventDocument
    rw [List.length_cons, eventFields_length]
    decide
  have hshort : raw.length ≤ maxEventBytes := by
    unfold raw
    rw [List.length_map]
    exact hlength.le
  exact (ParsingAux.parse_loads reader raw_loads hshort).trans parse_event

theorem sameValues : SameValues readFloat eventEntries requestBody := by
  refine ⟨?_, by decide +kernel⟩
  intro name hname
  simp only [evaluateRequestFields, List.mem_cons, List.not_mem_nil, or_false] at hname
  rcases hname with rfl | rfl | rfl | rfl | rfl | rfl | rfl | rfl | rfl <;> rfl

end DryRunExample

open DryRunExample in
/-- An event whose distance is given as the number `5.2`, and the body that holds the same values. -/
theorem dryRun_agrees_iff_decimal :
    DryRunAgrees reader event (.obj requestBody) ↔ KeepsNumbers reader readFloat eventEntries event :=
  dryRun_agrees_iff readsScalars readFloat raw_loads parse_raw sameValues

open DryRunExample in
/-- The event is accepted, and the dry run is refused: it rejects the float that the distance becomes. -/
theorem dryRun_agrees_false :
    parseTransactionEvent reader 1000 (some raw) = .ok event ∧ SameValues readFloat eventEntries requestBody ∧
      ¬DryRunAgrees reader event (.obj requestBody) := by
  refine ⟨parse_raw, sameValues, fun hagrees => ?_⟩
  have hkeeps := keepsNumbers_of_agrees readsScalars parse_event sameValues hagrees
  have hdistance : enrichmentValue eventEntries "distance_from_last_tx_km" = some (.decimal ⟨52, -1⟩) := by rfl
  exact hkeeps.distance _ hdistance

end FraudDetection
