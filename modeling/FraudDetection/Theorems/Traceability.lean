import FraudDetection.Traceability
import FraudDetection.Lemmas.Cache
import FraudDetection.Theorems.Decisions
import FraudDetection.Theorems.Staleness
import FraudDetection.Theorems.Tampering
import FraudDetection.Theorems.Velocity

/-!
# Every decision can be traced to its rules

A rule set is only ever built by `load_stored_definition`, from a JSON whose hash it has compared, and it travels through the layers
unchanged. So the hash on a decision is that of the JSON behind it, whatever is edited meanwhile; and without edits it is the rule
set of one row, which the label and the hash name.
-/

namespace FraudDetection

/-- A decision's columns are those of an assessment, and of the rule set that made it. -/
def TransactionRecord.Reports (record : TransactionRecord) (ruleSet : RuleSet) (assessment : Assessment) : Prop :=
  record.riskScore = assessment.riskScore ∧ record.triggeredRules = assessment.triggeredRules ∧
    record.verdict = assessment.verdict ∧ record.isFraud = assessment.isFraud ∧
    record.rulesVersion = ruleSetLabel ruleSet.key ruleSet.version ∧ record.rulesHash = ruleSet.contentHash

/-- A stored decision and the scoring behind it: it is the decision on the scored event, its columns are the result of the rule set's
definition on the event and on its velocity, and its hash is that of every JSON the rule set was built from, of which there is one. -/
structure Traced (sha : Sha256) (py : Interpreter) (s : TraceState) (record : TransactionRecord) (scoring : Scoring) : Prop where
  made : ∃ now, record = transactionRecord scoring.decision now
  result : ∃ priorCount priorAmount assessment,
    (ScoreInput.ofEvent scoring.event).velocity scoring.rows scoring.ruleSet.definition.velocityWindowSeconds =
        .ok (priorCount, priorAmount) ∧
      evaluateRuleSet scoring.ruleSet.definition (.ofEvent scoring.event priorCount priorAmount) = .ok assessment ∧
      record.Reports scoring.ruleSet assessment
  source : ∃ raw, (raw, scoring.ruleSet) ∈ s.loads
  hashed : ∀ raw, (raw, scoring.ruleSet) ∈ s.loads →
    modelValidate py raw = .ok scoring.ruleSet.definition ∧ record.rulesHash = definitionJsonHash sha raw

/-- A decision names one row of `rule_set_versions`, and this is what it loads as. -/
def NamesVersion (sha : Sha256) (py : Interpreter) (s : TraceState) (record : TransactionRecord)
    (definition : RuleSetDefinition) : Prop :=
  ∃ version raw,
    s.versions.filter (fun v => ruleSetLabel v.ruleSetKey v.version = record.rulesVersion ∧ v.contentHash = record.rulesHash) =
        [version] ∧
      version.definition.toJson = some raw ∧
      loadStoredDefinition sha py raw version.contentHash (ruleSetLabel version.ruleSetKey version.version) = .ok definition

namespace TraceAux

open CacheAux

/-! ## Labels -/

/-- A label names one key and one version, whatever characters the key has. -/
theorem ruleSetLabel_inj {key key' : String} {version version' : ℕ} (h : ruleSetLabel key version = ruleSetLabel key' version') :
    key = key' ∧ version = version' := by
  have htoList : ∀ (key : String) (version : ℕ),
      (ruleSetLabel key version).toList = key.toList ++ '@' :: 'v' :: Nat.toDigits 10 version := by
    intro key version
    simp [ruleSetLabel]
  have hdigits : ∀ version : ℕ, '@' ∉ 'v' :: Nat.toDigits 10 version := by
    intro version hm
    rcases List.mem_cons.mp hm with hm | hm
    · exact absurd hm (by decide)
    · exact absurd (NumberToken.isDigit_toDigits hm) (by decide)
  have hlist := congrArg String.toList h
  rw [htoList, htoList] at hlist
  obtain ⟨hkey, hversion⟩ := NumberToken.split_last hlist (hdigits version) (hdigits version')
  exact ⟨String.toList_inj.mp hkey, NumberToken.toDigits_inj (List.cons.inj hversion).2⟩

/-! ## What is loaded -/

/-- A rule set that was built from a JSON whose hash it has. -/
def Loads (sha : Sha256) (py : Interpreter) (raw : Json) (ruleSet : RuleSet) : Prop :=
  ∃ label, loadStoredDefinition sha py raw ruleSet.contentHash label = .ok ruleSet.definition

theorem record_load {sha : Sha256} {py : Interpreter} {record : RuleSetVersionRecord} {raw : Json} {ruleSet : RuleSet}
    (h : record.load sha py = some (raw, ruleSet)) :
    record.definition.toJson = some raw ∧ ruleSetFromRecord sha py record = .ok ruleSet := by
  unfold RuleSetVersionRecord.load at h
  split at h
  · rename_i raw' ruleSet' hraw hrs
    cases h
    exact ⟨hraw, hrs⟩
  · cases h

theorem load_record {sha : Sha256} {py : Interpreter} {record : RuleSetVersionRecord} {ruleSet : RuleSet}
    (h : ruleSetFromRecord sha py record = .ok ruleSet) : ∃ raw, record.load sha py = some (raw, ruleSet) := by
  unfold RuleSetVersionRecord.load
  rw [h]
  unfold ruleSetFromRecord at h
  split at h
  · cases h
  · rename_i raw hraw
    exact ⟨raw, by rw [hraw]⟩

/-- What a row loads as. -/
theorem ruleSetFromRecord_ok {sha : Sha256} {py : Interpreter} {record : RuleSetVersionRecord} {raw : Json} {ruleSet : RuleSet}
    (hraw : record.definition.toJson = some raw) (h : ruleSetFromRecord sha py record = .ok ruleSet) :
    loadStoredDefinition sha py raw record.contentHash (ruleSetLabel record.ruleSetKey record.version) =
        .ok ruleSet.definition ∧
      ruleSet.key = record.ruleSetKey ∧ ruleSet.version = record.version ∧ ruleSet.contentHash = record.contentHash := by
  unfold ruleSetFromRecord at h
  rw [hraw] at h
  obtain ⟨definition, hload, heq⟩ := Except.bind_eq_ok.mp h
  cases heq
  exact ⟨hload, rfl, rfl, rfl⟩

theorem deserialise_ok {sha : Sha256} {py : Interpreter} {entry : CacheEntry} {ruleSet : RuleSet}
    (h : deserialise sha py entry = .ok (some ruleSet)) :
    loadStoredDefinition sha py entry.definition entry.contentHash (ruleSetLabel entry.key entry.version) =
        .ok ruleSet.definition ∧
      ruleSet = ⟨entry.key, entry.version, ruleSet.definition, entry.contentHash, entry.description, entry.createdBy,
        entry.createdAt⟩ := by
  unfold deserialise at h
  split at h
  · cases h
  · obtain ⟨definition, hload, heq⟩ := Except.bind_eq_ok.mp h
    cases heq
    exact ⟨hload, rfl⟩

theorem readRedis_ok {sha : Sha256} {py : Interpreter} {s : CacheState} {fails : Bool} {ruleSet : RuleSet}
    (h : s.readRedis sha py fails = some ruleSet) :
    ∃ entry, s.payload = some entry ∧ deserialise sha py entry = .ok (some ruleSet) := by
  unfold CacheState.readRedis at h
  split at h
  · cases h
  · split at h
    · cases h
    · rename_i entry hp
      split at h
      · rename_i rs hd
        subst h
        exact ⟨entry, hp, hd⟩
      · cases h

/-- Every rule set that an access to a layer builds is built by `load_stored_definition`. -/
theorem loads_of_load {sha : Sha256} {py : Interpreter} {settings : CacheSettings} {s : CacheState} {e : CacheEvent} {raw : Json}
    {ruleSet : RuleSet} (h : s.load sha py settings e = some (raw, ruleSet)) : Loads sha py raw ruleSet := by
  have hrecord : ∀ record : RuleSetVersionRecord, record.load sha py = some (raw, ruleSet) → Loads sha py raw ruleSet := by
    intro record hr
    obtain ⟨hraw, hrs⟩ := record_load hr
    obtain ⟨hload, -, -, hhash⟩ := ruleSetFromRecord_ok hraw hrs
    rw [← hhash] at hload
    exact ⟨_, hload⟩
  cases e with
  | getRedis c fails =>
    simp only [CacheState.load] at h
    split at h
    · rename_i entry rs hp hr
      cases h
      obtain ⟨entry', hp', hd⟩ := readRedis_ok hr
      rw [hp] at hp'
      cases hp'
      obtain ⟨hload, hrs⟩ := deserialise_ok hd
      have hhash : ruleSet.contentHash = entry.contentHash := by rw [hrs]
      rw [← hhash] at hload
      exact ⟨_, hload⟩
    · cases h
  | selectLatest c fails =>
    simp only [CacheState.load] at h
    split at h
    · cases h
    · obtain ⟨record, -, hr⟩ := Option.bind_eq_some_iff.mp h
      exact hrecord record hr
  | commit p record => exact hrecord record h
  | _ => cases h

/-! ## Who holds a rule set -/

/-- The rule set that a phase of a call carries. -/
def carried : ActivePhase → Option RuleSet
  | .writingRedis ruleSet | .loaded ruleSet | .returned ruleSet => some ruleSet
  | _ => none

/-- A copy, a call or a publish has a rule set. -/
def Holds (s : CacheState) (ruleSet : RuleSet) : Prop :=
  (∃ provider copy, s.copies provider = some copy ∧ copy.ruleSet = ruleSet) ∨
    (∃ c call, s.calls c = some call ∧ carried call.phase = some ruleSet) ∨
    ∃ p t, s.publishes p = some (.committed ruleSet t)

theorem holds_setPhase {s : CacheState} {c : ℕ} {call : ActiveCall} {q : ActivePhase} {ruleSet : RuleSet}
    (h : Holds (s.setPhase c call q) ruleSet) : Holds s ruleSet ∨ carried q = some ruleSet := by
  rcases h with h | ⟨c', call', hc, hq⟩ | h
  · exact .inl (.inl h)
  · simp only [CacheState.setPhase] at hc
    rcases StepSystem.update_cases hc with ⟨-, hc⟩ | ⟨-, hc⟩
    · cases hc
      exact .inr hq
    · exact .inl (.inr (.inl ⟨c', call', hc, hq⟩))
  · exact .inl (.inr (.inr h))

theorem holds_setCopy {s : CacheState} {provider : ℕ} {copy : Option CachedRuleSet} {ruleSet : RuleSet}
    (h : Holds (s.setCopy provider copy) ruleSet) : Holds s ruleSet ∨ copy.map (·.ruleSet) = some ruleSet := by
  rcases h with ⟨provider', copy', hk, hr⟩ | h | h
  · simp only [CacheState.setCopy] at hk
    rcases StepSystem.update_cases hk with ⟨-, hk⟩ | ⟨-, hk⟩
    · rw [hk]
      exact .inr (congrArg some hr)
    · exact .inl (.inl ⟨provider', copy', hk, hr⟩)
  · exact .inl (.inr (.inl h))
  · exact .inl (.inr (.inr h))

theorem holds_setPublish {s : CacheState} {p : ℕ} {q : PublishPhase} {ruleSet : RuleSet} (h : Holds (s.setPublish p q) ruleSet) :
    Holds s ruleSet ∨ ∃ t, q = .committed ruleSet t := by
  rcases h with h | h | ⟨p', t, hp⟩
  · exact .inl (.inl h)
  · exact .inl (.inr (.inl h))
  · simp only [CacheState.setPublish] at hp
    rcases StepSystem.update_cases hp with ⟨-, hp⟩ | ⟨-, hp⟩
    · exact .inr ⟨t, Option.some.inj hp⟩
    · exact .inl (.inr (.inr ⟨p', t, hp⟩))

/-- Writing Redis changes no holder. -/
theorem holds_congr {s s' : CacheState} {ruleSet : RuleSet} (hcopies : s'.copies = s.copies) (hcalls : s'.calls = s.calls)
    (hpublishes : s'.publishes = s.publishes) (h : Holds s' ruleSet) : Holds s ruleSet := by
  unfold Holds at h ⊢
  rw [hcopies, hcalls, hpublishes] at h
  exact h

/-- What a step makes someone hold was held before, or is loaded by the step. -/
theorem holds_step {sha : Sha256} {py : Interpreter} {settings : CacheSettings} {s s' : CacheState} {e : CacheEvent}
    (hs : cacheStep sha py settings s e = some s') {ruleSet : RuleSet} (h : Holds s' ruleSet) :
    Holds s ruleSet ∨ ∃ raw, s.load sha py settings e = some (raw, ruleSet) := by
  have hwrite : ∀ rs fails, Holds (s.writeRedis settings rs fails) ruleSet → Holds s ruleSet := fun rs fails h =>
    holds_congr (CacheState.writeRedis_copies ..) (CacheState.writeRedis_calls ..) (CacheState.writeRedis_publishes ..) h
  cases e with
  | start c provider =>
    simp only [cacheStep] at hs
    split at hs
    · cases hs
    · cases hs
      rcases holds_setPhase h with h | h
      · exact .inl h
      · unfold startPhase at h
        split at h
        · cases h
        · rename_i copy hk
          split at h
          · exact .inl (.inl ⟨provider, copy, hk, Option.some.inj h⟩)
          · cases h
  | getRedis c fails =>
    simp only [cacheStep] at hs
    split at hs
    · cases hs
      rcases holds_setPhase h with h | h
      · exact .inl h
      · split at h
        · rename_i rs hr
          cases h
          obtain ⟨entry, hp, -⟩ := readRedis_ok hr
          refine .inr ⟨entry.definition, ?_⟩
          simp only [CacheState.load, hp, hr]
        · cases h
    · cases hs
  | selectLatest c fails =>
    simp only [cacheStep] at hs
    split at hs
    · cases hs
      rcases holds_setPhase h with h | h
      · exact .inl h
      · split at h
        · cases h
        · rename_i hf
          split at h
          · rename_i rs hl
            cases h
            unfold getLatestRuleSet at hl
            split at hl
            · cases hl
            · rename_i record hlatest
              split at hl
              · rename_i rs' hrs
                cases hl
                obtain ⟨raw, hraw⟩ := load_record hrs
                refine .inr ⟨raw, ?_⟩
                simp only [CacheState.load, hlatest]
                rw [if_neg hf]
                exact hraw
              · cases hl
          · cases h
          · cases h
    · cases hs
  | reject c =>
    simp only [cacheStep] at hs
    split at hs
    · cases hs
      rcases holds_setPhase h with h | h
      · rcases holds_setCopy h with h | h
        · exact .inl h
        · cases h
      · cases h
    · cases hs
  | setRedis c fails =>
    simp only [cacheStep] at hs
    split at hs
    · rename_i provider startedAt rs hc
      cases hs
      rcases holds_setPhase h with h | h
      · exact .inl (hwrite rs fails h)
      · exact .inl (.inr (.inl ⟨c, _, hc, h⟩))
    · cases hs
  | fill c =>
    simp only [cacheStep] at hs
    split at hs
    · rename_i provider startedAt rs hc
      cases hs
      rcases holds_setPhase h with h | h
      · rcases holds_setCopy h with h | h
        · exact .inl h
        · exact .inl (.inr (.inl ⟨c, _, hc, h⟩))
      · exact .inl (.inr (.inl ⟨c, _, hc, h⟩))
    · cases hs
  | cancel c =>
    simp only [cacheStep] at hs
    split at hs
    · split at hs
      · cases hs
      · cases hs
        rcases holds_setPhase h with h | h
        · exact .inl h
        · cases h
    · cases hs
  | commit p record =>
    simp only [cacheStep] at hs
    split at hs
    · cases hs
    · split at hs
      · cases hs
        rcases holds_setPublish h with h | ⟨t, h⟩
        · exact .inl (holds_congr rfl rfl rfl h)
        · split at h
          · rename_i rs hrs
            cases h
            exact .inr (load_record hrs)
          · cases h
      · cases hs
  | overwrite p fails =>
    simp only [cacheStep] at hs
    split at hs
    · rename_i rs committedAt hp
      have hset : Holds ((s.writeRedis settings rs fails).setPublish p .ended) ruleSet → Holds s ruleSet := by
        intro h
        rcases holds_setPublish h with h | ⟨t, h⟩
        · exact hwrite rs fails h
        · cases h
      cases fails with
      | false =>
        cases hs
        exact .inl (hset (holds_congr rfl rfl rfl h))
      | true =>
        cases hs
        exact .inl (hset h)
    · cases hs
  | abandon p =>
    simp only [cacheStep] at hs
    split at hs
    · cases hs
      rcases holds_setPublish h with h | ⟨t, h⟩
      · exact .inl h
      · cases h
    · cases hs
  | tick duration =>
    simp only [cacheStep] at hs
    split at hs
    · cases hs
      exact .inl (holds_congr rfl rfl rfl h)
    · cases hs

/-! ## Calls of `record_decision` keep their arguments -/

theorem step_call? {data : Position → TransactionData} {s s' : DecisionsState} {e : RecordEvent}
    (h : DecisionsAux.Step data s e s') (hb : e.begins = false) (j : ℕ) : (s'.phase j).call? = (s.phase j).call? := by
  have hupdate : ∀ {i : ℕ} {q : RecordPhase}, q.call? = (s.phase i).call? →
      (Function.update s.phase i q j).call? = (s.phase j).call? := by
    intro i q hq
    by_cases hj : j = i
    · rw [hj, Function.update_self, hq]
    · rw [Function.update_of_ne hj]
  cases h with
  | begin i call hp hd => cases hb
  | present i now call hp hc => exact hupdate (by rw [hp]; rfl)
  | inserted i now call table hp hf ht => exact hupdate (by rw [hp]; rfl)
  | duplicate i call existing hp hf hs => exact hupdate (by rw [hp]; rfl)
  | skipped i call result hp hc => exact hupdate (by rw [hp]; rfl)
  | audited i call result table hp ht => exact hupdate (by rw [hp]; rfl)
  | commit i acknowledged call result hp =>
    refine hupdate ?_
    rw [hp]
    cases acknowledged <;> rfl
  | conflicting i call existing hp hf hs => exact hupdate (by rw [hp]; rfl)
  | missing i call hp hf => exact hupdate (by rw [hp]; rfl)
  | failed _ i call error hc hm he hn => exact hupdate (by rw [hc]; rfl)

/-! ## Any run -/

variable {sha : Sha256} {py : Interpreter} {settings : CacheSettings} {data : Position → TransactionData}

/-- What holds in every reachable state: decisions come from scorings, scorings from loaded rule sets, and a rule set is loaded from
a JSON of its hash. -/
structure Inv (sha : Sha256) (py : Interpreter) (data : Position → TransactionData) (s : TraceState) : Prop where
  decisions : (FraudDetection.decisions data).Reachable s.decisions
  scored : ∀ i call, (s.decisions.phase i).call? = some call →
    ∃ scoring, s.scorings i = some scoring ∧ call.decision = scoring.decision
  scores : ∀ i scoring, s.scorings i = some scoring →
    scoreTransaction scoring.rows scoring.ruleSet.definition (.ofEvent scoring.event) = .ok scoring.score ∧
      ∃ raw, (raw, scoring.ruleSet) ∈ s.loads
  held : ∀ ruleSet, Holds s.cache ruleSet → ∃ raw, (raw, ruleSet) ∈ s.loads
  loaded : ∀ raw ruleSet, (raw, ruleSet) ∈ s.loads → Loads sha py raw ruleSet

theorem inv_empty : Inv sha py data .empty where
  decisions := .start rfl
  scored i call h := by cases h
  scores i scoring h := by cases h
  held ruleSet h := by
    rcases h with ⟨_, _, h, _⟩ | ⟨_, _, h, _⟩ | ⟨_, _, h⟩
    · cases h
    · cases h
    · cases h
  loaded raw ruleSet h := absurd h List.not_mem_nil

theorem inv_cache {s : TraceState} (h : Inv sha py data s) {e : CacheEvent} {cache : CacheState}
    (hs : cacheStep sha py settings s.cache e = some cache) :
    Inv sha py data { s with cache := cache, loads := s.loads ++ (s.cache.load sha py settings e).toList } where
  decisions := h.decisions
  scored := h.scored
  scores i scoring hi := by
    obtain ⟨hscore, raw, hraw⟩ := h.scores i scoring hi
    exact ⟨hscore, raw, List.mem_append_left _ hraw⟩
  held ruleSet hh := by
    rcases holds_step hs hh with hold | ⟨raw, hload⟩
    · obtain ⟨raw, hraw⟩ := h.held ruleSet hold
      exact ⟨raw, List.mem_append_left _ hraw⟩
    · exact ⟨raw, List.mem_append_right _ (Option.mem_toList.mpr hload)⟩
  loaded raw ruleSet hm := by
    rcases List.mem_append.mp hm with hm | hm
    · exact h.loaded raw ruleSet hm
    · exact loads_of_load (Option.mem_toList.mp hm)

theorem inv_score {s : TraceState} (h : Inv sha py data s) {i : ℕ} {scoring : Scoring} {provenance : MessageProvenance}
    {decisions : DecisionsState} (hholds : Holds s.cache scoring.ruleSet)
    (hscore : scoreTransaction scoring.rows scoring.ruleSet.definition (.ofEvent scoring.event) = .ok scoring.score)
    (hs : recordStep data s.decisions (.begin i ⟨scoring.decision, provenance⟩) = some decisions) :
    Inv sha py data { s with decisions := decisions, scorings := Function.update s.scorings i (some scoring) } where
  decisions := DecisionsAux.reachable_step h.decisions hs
  scored j call hj := by
    dsimp only at hj ⊢
    simp only [recordStep] at hs
    split at hs
    · split at hs
      · cases hs
        simp only [DecisionsState.setPhase] at hj
        by_cases heq : j = i
        · rw [heq, Function.update_self] at hj ⊢
          cases hj
          exact ⟨scoring, rfl, rfl⟩
        · rw [Function.update_of_ne heq] at hj ⊢
          exact h.scored j call hj
      · cases hs
    · cases hs
  scores j scoring' hj := by
    dsimp only at hj
    rcases StepSystem.update_cases hj with ⟨-, hj⟩ | ⟨-, hj⟩
    · cases hj
      exact ⟨hscore, h.held scoring.ruleSet hholds⟩
    · exact h.scores j scoring' hj
  held := h.held
  loaded := h.loaded

theorem inv_record {s : TraceState} (h : Inv sha py data s) {e : RecordEvent} {decisions : DecisionsState}
    (hb : e.begins = false) (hs : recordStep data s.decisions e = some decisions) :
    Inv sha py data { s with decisions := decisions } where
  decisions := DecisionsAux.reachable_step h.decisions hs
  scored i call hi := by
    dsimp only at hi ⊢
    rw [step_call? (DecisionsAux.step_of hs) hb i] at hi
    exact h.scored i call hi
  scores := h.scores
  held := h.held
  loaded := h.loaded

/-- An edit of a layer changes nothing that is held. -/
theorem inv_edit {s : TraceState} (h : Inv sha py data s) {cache : CacheState} (others : List RuleSetVersionRecord)
    (hcopies : cache.copies = s.cache.copies) (hcalls : cache.calls = s.cache.calls)
    (hpublishes : cache.publishes = s.cache.publishes) : Inv sha py data { s with cache := cache, others := others } where
  decisions := h.decisions
  scored := h.scored
  scores := h.scores
  held ruleSet hh := h.held ruleSet (holds_congr hcopies hcalls hpublishes hh)
  loaded := h.loaded

/-- What a scoring step does. -/
theorem score_some {s s' : TraceState} {i active : ℕ} {event : TransactionCreatedV1} {provenance : MessageProvenance}
    (hs : traceStep sha py settings data s (.score i active event provenance) = some s') :
    ∃ ruleSet score decisions, Holds s.cache ruleSet ∧
      scoreTransaction s.transactions ruleSet.definition (.ofEvent event) = .ok score ∧
      recordStep data s.decisions (.begin i ⟨transactionDecision event ruleSet score, provenance⟩) = some decisions ∧
      s' = { s with
        decisions := decisions
        scorings := Function.update s.scorings i (some ⟨event, ruleSet, s.transactions, score⟩) } := by
  simp only [traceStep] at hs
  split at hs
  · rename_i provider startedAt ruleSet hc
    split at hs
    · cases hs
    · rename_i score hscore
      obtain ⟨decisions, hd, rfl⟩ := Option.map_eq_some_iff.mp hs
      exact ⟨ruleSet, score, decisions, .inr (.inl ⟨active, _, hc, rfl⟩), hscore, hd, rfl⟩
  · cases hs

theorem inv_step {s s' : TraceState} {e : TraceEvent} (h : Inv sha py data s)
    (hs : (tracing sha py settings data).step s e = some s') : Inv sha py data s' := by
  simp only [tracing] at hs
  cases e with
  | cache event =>
    obtain ⟨cache, hc, rfl⟩ := Option.map_eq_some_iff.mp hs
    exact inv_cache h hc
  | publishOther record =>
    simp only [traceStep] at hs
    split at hs
    · cases hs
    · cases hs
      exact inv_edit h _ rfl rfl rfl
  | score i active event provenance =>
    obtain ⟨ruleSet, score, decisions, hholds, hscore, hd, rfl⟩ := score_some hs
    exact inv_score h hholds hscore hd
  | record event =>
    simp only [traceStep] at hs
    split at hs
    · cases hs
    · rename_i hb
      obtain ⟨decisions, hd, rfl⟩ := Option.map_eq_some_iff.mp hs
      exact inv_record h (by simpa using hb) hd
  | editVersion index definition =>
    cases hs
    exact inv_edit h _ rfl rfl rfl
  | editOther index definition =>
    cases hs
    exact inv_edit h _ rfl rfl rfl
  | editRedis value =>
    cases hs
    exact inv_edit h _ rfl rfl rfl

theorem inv_reachable {s : TraceState} (h : (tracing sha py settings data).Reachable s) : Inv sha py data s := by
  refine StepSystem.Reachable.invariant ?_ (fun s e s' hi hs => inv_step hi hs) h
  rintro s rfl
  exact inv_empty

/-- A committed decision was made by a scoring. -/
theorem scoring_of_row {s : TraceState} (h : Inv sha py data s) {t : StoredDecision} (ht : t ∈ s.decisions.transactions.rows) :
    ∃ scoring now, s.scorings t.call = some scoring ∧ t.record = transactionRecord scoring.decision now := by
  obtain ⟨-, ⟨call, hcall, now, hmade⟩, -⟩ := (DecisionsAux.inv_reachable h.decisions).made t ht
  obtain ⟨scoring, hscoring, hdecision⟩ := h.scored t.call call hcall
  refine ⟨scoring, now, hscoring, ?_⟩
  rw [← hdecision, hmade]

/-- What a scoring reports. -/
theorem traced_of_scoring {s : TraceState} (h : Inv sha py data s) {i : ℕ} {scoring : Scoring} (hi : s.scorings i = some scoring)
    (now : Timestamp) : Traced sha py s (transactionRecord scoring.decision now) scoring := by
  obtain ⟨hscore, hsource⟩ := h.scores i scoring hi
  refine ⟨⟨now, rfl⟩, ?_, hsource, fun raw hraw => ?_⟩
  · unfold scoreTransaction at hscore
    split at hscore
    · cases hscore
    · rename_i priorCount priorAmount hvelocity
      split at hscore
      · cases hscore
      · rename_i assessment heval
        refine ⟨priorCount, priorAmount, assessment, hvelocity, heval, ?_⟩
        have hassessment : scoring.score.assessment = assessment := by
          rw [← Except.ok.inj hscore]
        unfold TransactionRecord.Reports transactionRecord Scoring.decision transactionDecision
        simp only [hassessment, and_self]
  · obtain ⟨label, hload⟩ := h.loaded raw scoring.ruleSet hraw
    obtain ⟨hhash, hvalid, -⟩ := TamperingAux.load_eq_ok.mp hload
    exact ⟨hvalid, hhash.symm⟩

/-! ## Runs without edits -/

/-- A rule set is what a row loads as. -/
def FromRow (sha : Sha256) (py : Interpreter) (rows : List RuleSetVersionRecord) (ruleSet : RuleSet) : Prop :=
  ∃ record ∈ rows, ruleSetFromRecord sha py record = .ok ruleSet

theorem FromRow.append {rows : List RuleSetVersionRecord} {ruleSet : RuleSet} (h : FromRow sha py rows ruleSet)
    (new : List RuleSetVersionRecord) : FromRow sha py (rows ++ new) ruleSet := by
  obtain ⟨record, hm, hrs⟩ := h
  exact ⟨record, List.mem_append_left new hm, hrs⟩

/-- A rule set is read from Redis as it was written. -/
theorem deserialise_serialise {ruleSet ruleSet' : RuleSet} (h : deserialise sha py (serialise ruleSet) = .ok (some ruleSet')) :
    ruleSet' = ruleSet := by
  obtain ⟨hload, heq⟩ := deserialise_ok h
  obtain ⟨-, hvalid, -⟩ := TamperingAux.load_eq_ok.mp hload
  have hdefinition : ruleSet'.definition = ruleSet.definition :=
    Except.ok.inj (hvalid.symm.trans (StoredAux.modelValidate_modelDump py ruleSet.definition))
  rw [heq, hdefinition]
  rfl

/-- The Redis entry after a step: the one before, or that of a rule set which someone holds. -/
theorem redis_step {s s' : CacheState} {e : CacheEvent} (hs : cacheStep sha py settings s e = some s') {value : RedisValue}
    (hr : s'.redis = some value) :
    s.redis = some value ∨ ∃ ruleSet, Holds s ruleSet ∧ value.payload = some (serialise ruleSet) := by
  cases step_of (show (ruleSetCache sha py settings).step s e = some s' from hs) with
  | set c fails call ruleSet hc hp =>
    rcases CacheState.writeRedis_redis s settings ruleSet fails hr with hold | ⟨-, rfl⟩
    · exact .inl hold
    · exact .inr ⟨ruleSet, .inr (.inl ⟨c, call, hc, by rw [hp]; rfl⟩), rfl⟩
  | overwrite p fails ruleSet committedAt hp overwritten ho =>
    rcases CacheState.writeRedis_redis s settings ruleSet fails hr with hold | ⟨-, rfl⟩
    · exact .inl hold
    · exact .inr ⟨ruleSet, .inr (.inr ⟨p, committedAt, hp⟩), rfl⟩
  | _ => exact .inl hr

/-- The rows after a step: those before, or also the one it commits, which is the next version of the key. -/
theorem rows_step {s s' : CacheState} {e : CacheEvent} (hs : cacheStep sha py settings s e = some s') :
    ((∀ p record, e ≠ .commit p record) ∧ s'.rows = s.rows) ∨
      ∃ p record, e = .commit p record ∧ s'.rows = s.rows ++ [record] ∧ record.ruleSetKey = settings.key ∧
        record.version = currentVersion s.rows settings.key + 1 := by
  cases step_of (show (ruleSetCache sha py settings).step s e = some s' from hs) with
  | commit p record q hp hk hv hq =>
    refine .inr ⟨p, record, rfl, ?_, hk, hv⟩
    simp [CacheState.rows, CacheState.addVersion]
  | set c fails call ruleSet hc hp =>
    refine .inl ⟨?_, by simp [CacheState.rows]⟩
    intro p record he
    cases he
  | overwrite p fails ruleSet committedAt hp overwritten ho =>
    refine .inl ⟨?_, by simp [CacheState.rows]⟩
    intro p record he
    cases he
  | _ =>
    refine .inl ⟨?_, rfl⟩
    intro p record he
    cases he

/-- What holds besides in every state that is reached without edits: the rows of a key have different versions, and every rule set
that was loaded, and every Redis entry, is that of a row. -/
structure Unedited (sha : Sha256) (py : Interpreter) (settings : CacheSettings) (s : TraceState) : Prop where
  keys : ∀ record ∈ s.cache.rows, record.ruleSetKey = settings.key
  others : ∀ record ∈ s.others, record.ruleSetKey ≠ settings.key
  distinct : (s.cache.rows.map (·.version)).Nodup
  loaded : ∀ raw ruleSet, (raw, ruleSet) ∈ s.loads → FromRow sha py s.cache.rows ruleSet
  entry : ∀ value entry, s.cache.redis = some value → value.payload = some entry →
    ∃ ruleSet, entry = serialise ruleSet ∧ FromRow sha py s.cache.rows ruleSet

theorem unedited_empty : Unedited sha py settings .empty where
  keys record h := absurd h List.not_mem_nil
  others record h := absurd h List.not_mem_nil
  distinct := List.nodup_nil
  loaded raw ruleSet h := absurd h List.not_mem_nil
  entry value entry h := by cases h

/-- The next version of a key is a new one. -/
theorem distinct_commit {rows : List RuleSetVersionRecord} {key : String} {record : RuleSetVersionRecord}
    (hkeys : ∀ r ∈ rows, r.ruleSetKey = key) (hd : (rows.map (·.version)).Nodup)
    (hv : record.version = currentVersion rows key + 1) : ((rows ++ [record]).map (·.version)).Nodup := by
  rw [List.map_append, List.map_singleton]
  refine List.nodup_append.mpr ⟨hd, List.nodup_singleton _, ?_⟩
  intro version hm version' hm' heq
  obtain ⟨r, hr, rfl⟩ := List.mem_map.mp hm
  have hle := PublishAux.version_le_current hr
  rw [hkeys r hr] at hle
  rw [List.mem_singleton.mp hm', hv] at heq
  omega

/-- What an access to a layer loads without edits is what a row loads as. -/
theorem fromRow_of_load {s : TraceState} (h : Unedited sha py settings s) {e : CacheEvent} {cache : CacheState}
    (hs : cacheStep sha py settings s.cache e = some cache) {raw : Json} {ruleSet : RuleSet}
    (hload : s.cache.load sha py settings e = some (raw, ruleSet)) : FromRow sha py cache.rows ruleSet := by
  rcases rows_step hs with ⟨hne, hrows⟩ | ⟨p, record, rfl, hrows, -, -⟩
  · rw [hrows]
    cases e with
    | getRedis c fails =>
      simp only [CacheState.load] at hload
      split at hload
      · rename_i entry rs hp hr
        cases hload
        obtain ⟨entry', hp', hd⟩ := readRedis_ok hr
        unfold CacheState.payload at hp'
        split at hp'
        · cases hp'
        · rename_i value hvalue
          split at hp'
          · obtain ⟨written, rfl, hrow⟩ := h.entry value entry' hvalue hp'
            rw [deserialise_serialise hd]
            exact hrow
          · cases hp'
      · cases hload
    | selectLatest c fails =>
      simp only [CacheState.load] at hload
      split at hload
      · cases hload
      · obtain ⟨record, hlatest, hr⟩ := Option.bind_eq_some_iff.mp hload
        have hm := List.argmax_mem hlatest
        exact ⟨record, (List.mem_filter.mp hm).1, (record_load hr).2⟩
    | commit p record => exact absurd rfl (hne p record)
    | _ => cases hload
  · rw [hrows]
    exact ⟨record, List.mem_append_right _ (List.mem_singleton_self record), (record_load hload).2⟩

theorem unedited_cache {s : TraceState} (hi : Inv sha py data s) (h : Unedited sha py settings s) {e : CacheEvent}
    {cache : CacheState} (hs : cacheStep sha py settings s.cache e = some cache) :
    Unedited sha py settings { s with cache := cache, loads := s.loads ++ (s.cache.load sha py settings e).toList } := by
  have hgrow : ∀ ruleSet, FromRow sha py s.cache.rows ruleSet → FromRow sha py cache.rows ruleSet := by
    intro ruleSet hrow
    rcases rows_step hs with ⟨-, hrows⟩ | ⟨p, record, -, hrows, -, -⟩
    · rw [hrows]
      exact hrow
    · rw [hrows]
      exact hrow.append _
  refine ⟨?_, h.others, ?_, ?_, ?_⟩
  · rcases rows_step hs with ⟨-, hrows⟩ | ⟨p, record, -, hrows, hk, -⟩
    · dsimp only
      rw [hrows]
      exact h.keys
    · dsimp only
      rw [hrows]
      intro r hr
      rcases List.mem_append.mp hr with hr | hr
      · exact h.keys r hr
      · rw [List.mem_singleton.mp hr]
        exact hk
  · rcases rows_step hs with ⟨-, hrows⟩ | ⟨p, record, -, hrows, -, hv⟩
    · dsimp only
      rw [hrows]
      exact h.distinct
    · dsimp only
      rw [hrows]
      exact distinct_commit h.keys h.distinct hv
  · intro raw ruleSet hm
    rcases List.mem_append.mp hm with hm | hm
    · exact hgrow ruleSet (h.loaded raw ruleSet hm)
    · exact fromRow_of_load h hs (Option.mem_toList.mp hm)
  · intro value entry hvalue hp
    rcases redis_step hs hvalue with hold | ⟨ruleSet, hholds, hwritten⟩
    · obtain ⟨ruleSet, hentry, hrow⟩ := h.entry value entry hold hp
      exact ⟨ruleSet, hentry, hgrow ruleSet hrow⟩
    · rw [hwritten] at hp
      obtain ⟨raw, hraw⟩ := hi.held ruleSet hholds
      exact ⟨ruleSet, (Option.some.inj hp).symm, hgrow ruleSet (h.loaded raw ruleSet hraw)⟩

theorem unedited_step {s s' : TraceState} {e : TraceEvent} (hi : Inv sha py data s) (h : Unedited sha py settings s)
    (he : e.isStep = true) (hs : (tracing sha py settings data).step s e = some s') : Unedited sha py settings s' := by
  simp only [tracing] at hs
  cases e with
  | cache event =>
    obtain ⟨cache, hc, rfl⟩ := Option.map_eq_some_iff.mp hs
    exact unedited_cache hi h hc
  | publishOther record =>
    simp only [traceStep] at hs
    split at hs
    · cases hs
    · rename_i hk
      cases hs
      refine ⟨h.keys, fun r hr => ?_, h.distinct, h.loaded, h.entry⟩
      rcases List.mem_append.mp hr with hr | hr
      · exact h.others r hr
      · rw [List.mem_singleton.mp hr]
        exact hk
  | score i active event provenance =>
    obtain ⟨ruleSet, score, decisions, -, -, -, rfl⟩ := score_some hs
    exact ⟨h.keys, h.others, h.distinct, h.loaded, h.entry⟩
  | record event =>
    simp only [traceStep] at hs
    split at hs
    · cases hs
    · obtain ⟨decisions, -, rfl⟩ := Option.map_eq_some_iff.mp hs
      exact ⟨h.keys, h.others, h.distinct, h.loaded, h.entry⟩
  | editVersion index definition => cases he
  | editOther index definition => cases he
  | editRedis value => cases he

theorem unedited_reachable {s : TraceState}
    (h : (tracing sha py settings data).ReachableWhen (fun _ e => e.isStep = true) s) : Unedited sha py settings s := by
  have hboth : Inv sha py data s ∧ Unedited sha py settings s := by
    refine @StepSystem.ReachableWhen.invariant _ _ _ _ (fun s => Inv sha py data s ∧ Unedited sha py settings s) ?_ ?_ s h
    · rintro s rfl
      exact ⟨inv_empty, unedited_empty⟩
    · rintro s e s' ⟨hi, hu⟩ he hs
      exact ⟨inv_step hi hs, unedited_step hi hu he hs⟩
  exact hboth.2

/-- One row has the label of a row that is there. -/
theorem filter_label {s : TraceState} (h : Unedited sha py settings s) {record : RuleSetVersionRecord} (hm : record ∈ s.cache.rows) :
    s.versions.filter (fun v => ruleSetLabel v.ruleSetKey v.version = ruleSetLabel record.ruleSetKey record.version ∧
      v.contentHash = record.contentHash) = [record] := by
  have hothers : s.others.filter (fun v => ruleSetLabel v.ruleSetKey v.version = ruleSetLabel record.ruleSetKey record.version ∧
      v.contentHash = record.contentHash) = [] := by
    refine List.filter_eq_nil_iff.mpr fun v hv hlabel => ?_
    obtain ⟨hkey, -⟩ := ruleSetLabel_inj (of_decide_eq_true hlabel).1
    exact h.others v hv (hkey.trans (h.keys record hm))
  unfold TraceState.versions
  rw [List.filter_append, hothers, List.append_nil]
  refine DecisionsAux.filter_eq_singleton (h.distinct.of_map _) hm ⟨rfl, rfl⟩ ?_
  rintro v hv ⟨hlabel, -⟩
  exact List.inj_on_of_nodup_map h.distinct hv hm (ruleSetLabel_inj hlabel).2

/-- Without edits, a decision of a rule set that was loaded names the row of that rule set. -/
theorem namesVersion_of_load {s : TraceState} (h : Unedited sha py settings s) {raw : Json} {ruleSet : RuleSet}
    (hload : (raw, ruleSet) ∈ s.loads) {record : TransactionRecord}
    (hversion : record.rulesVersion = ruleSetLabel ruleSet.key ruleSet.version) (hhash : record.rulesHash = ruleSet.contentHash) :
    NamesVersion sha py s record ruleSet.definition := by
  obtain ⟨version, hm, hrs⟩ := h.loaded raw ruleSet hload
  obtain ⟨stored, hstored⟩ := load_record hrs
  obtain ⟨hdefinition, -⟩ := record_load hstored
  obtain ⟨hok, hkey, hnumber, hcontent⟩ := ruleSetFromRecord_ok hdefinition hrs
  refine ⟨version, stored, ?_, hdefinition, hok⟩
  rw [hversion, hhash, hkey, hnumber, hcontent]
  exact filter_label h hm

/-! ## Runs of a part -/

/-- Accesses to the cache alone. -/
theorem run_cache {s : TraceState} {es : List CacheEvent} {cache : CacheState}
    (h : (ruleSetCache sha py settings).run s.cache es = some cache) :
    ∃ loads, (tracing sha py settings data).run s (es.map .cache) = some { s with cache := cache, loads := loads } := by
  induction es generalizing s with
  | nil =>
    cases h
    exact ⟨s.loads, rfl⟩
  | cons e es ih =>
    obtain ⟨next, hnext, hrest⟩ := StepSystem.run_cons h
    have hstep : (tracing sha py settings data).step s (.cache e) =
        some { s with cache := next, loads := s.loads ++ (s.cache.load sha py settings e).toList } := by
      simp only [tracing, traceStep]
      rw [show cacheStep sha py settings s.cache e = some next from hnext]
      rfl
    obtain ⟨loads, hloads⟩ := @ih { s with cache := next, loads := s.loads ++ (s.cache.load sha py settings e).toList } hrest
    refine ⟨loads, ?_⟩
    simp only [List.map_cons, StepSystem.run, hstep, Option.bind_some, hloads]

/-- Calls of `record_decision` alone, once they have begun. -/
theorem run_record {s : TraceState} {es : List RecordEvent} {recorded : DecisionsState} (hb : ∀ e ∈ es, e.begins = false)
    (h : (FraudDetection.decisions data).run s.decisions es = some recorded) :
    (tracing sha py settings data).run s (es.map .record) = some { s with decisions := recorded } := by
  induction es generalizing s with
  | nil =>
    cases h
    rfl
  | cons e es ih =>
    obtain ⟨next, hnext, hrest⟩ := StepSystem.run_cons h
    have hstep : (tracing sha py settings data).step s (.record e) = some { s with decisions := next } := by
      simp only [tracing, traceStep, hb e List.mem_cons_self, Bool.false_eq_true, if_false]
      rw [show recordStep data s.decisions e = some next from hnext]
      rfl
    have htail := @ih { s with decisions := next } (fun e' he' => hb e' (List.mem_cons_of_mem e he')) hrest
    simp only [List.map_cons, StepSystem.run, hstep, Option.bind_some, htail]

end TraceAux

open TraceAux

/-- Every stored decision comes from a scoring: its hash is that of the JSON behind the definition that was run, and its columns are
the result of that run, whatever is edited meanwhile. In a run without edits it also names one row of `rule_set_versions`, which
loads as that definition. -/
theorem decisions_traceable {sha : Sha256} {py : Interpreter} {settings : CacheSettings} {data : Position → TransactionData}
    {s : TraceState} (h : (tracing sha py settings data).Reachable s) {t : StoredDecision}
    (ht : t ∈ s.decisions.transactions.rows) :
    ∃ scoring, s.scorings t.call = some scoring ∧ Traced sha py s t.record scoring ∧
      ((tracing sha py settings data).ReachableWhen (fun _ e => e.isStep = true) s →
        NamesVersion sha py s t.record scoring.ruleSet.definition) := by
  obtain ⟨scoring, now, hscoring, hrecord⟩ := scoring_of_row (inv_reachable h) ht
  have htraced := traced_of_scoring (inv_reachable h) hscoring now
  rw [← hrecord] at htraced
  refine ⟨scoring, hscoring, htraced, fun hu => ?_⟩
  obtain ⟨raw, hraw⟩ := htraced.source
  obtain ⟨_, _, _, -, -, -, -, -, -, hversion, hhash⟩ := htraced.result
  exact namesVersion_of_load (unedited_reachable hu) hraw hversion hhash

namespace TraceExample

open RoundTripExample VelocityExample StepSystem

/-- The hash of the rule set `amount > 10000`. -/
def hexdigest : String := "bd41fe9b0b40182d5c437ac35001fc2b3abdc7918cf52d7a73b0ca6c736bc453"

/-- A digest that has this value where SHA-256 has it. -/
def sha : Sha256 := ⟨Equiv.swap whole.modelDump.canonical hexdigest, Equiv.injective _⟩

theorem whole_hash : contentHash sha whole = hexdigest := Equiv.swap_apply_left _ _

/-- The first version of the rule set. -/
def ruleSet : RuleSet := ⟨"fraud-default", 1, whole, hexdigest, "", "analyst", 0⟩

/-- Its row. -/
def record : RuleSetVersionRecord := { CacheExample.record 1 with contentHash := hexdigest }

/-- The row loads. -/
theorem record_loads : ruleSetFromRecord sha interpreter record = .ok ruleSet := by
  obtain ⟨a, ha⟩ := CacheExample.dryRun
  obtain ⟨raw, hraw, hload, -⟩ := StoredAux.load_stored sha interpreter (ruleSetLabel record.ruleSetKey record.version)
    (Option.some_get (x := Jsonb.ofJson whole.modelDump) rfl).symm ha
  rw [whole_hash] at hload
  unfold ruleSetFromRecord
  simp only [record, CacheExample.record] at hraw hload ⊢
  rw [hraw]
  simp only [hload RoundTripExample.whole_plain]
  rfl

/-- The version is committed, and a call of `get_active` loads it. -/
def cacheEvents : List CacheEvent :=
  [.commit 0 record, .start 0 0, .getRedis 0 false, .selectLatest 0 false, .setRedis 0 false, .fill 0]

/-- A first version that loads is what the call returns. -/
theorem loads_row {sha : Sha256} {py : Interpreter} {row : RuleSetVersionRecord} {loaded : RuleSet}
    (hkey : row.ruleSetKey = CacheExample.settings.key) (hversion : row.version = 1)
    (hload : ruleSetFromRecord sha py row = .ok loaded) :
    ∃ cache, (ruleSetCache sha py CacheExample.settings).run .empty
        [.commit 0 row, .start 0 0, .getRedis 0 false, .selectLatest 0 false, .setRedis 0 false, .fill 0] = some cache ∧
      cache.calls 0 = some ⟨0, 0, .returned loaded⟩ := by
  have hc : row.ruleSetKey = CacheExample.settings.key ∧
      row.version = currentVersion CacheState.empty.rows CacheExample.settings.key + 1 := ⟨hkey, hversion⟩
  have hlatest : getLatestRuleSet sha py [row] CacheExample.settings.key = .ok loaded :=
    CacheExample.getLatestRuleSet_singleton hkey hload
  simp only [run, ruleSetCache, cacheStep, CacheState.empty] at hc ⊢
  simp [hc, hload, CacheState.setPublish, CacheState.addVersion, startPhase, CacheState.setPhase, CacheState.readRedis,
    CacheState.payload, CacheState.rows, hlatest, CacheState.writeRedis, CacheState.setCopy]

theorem loads_first : ∃ cache, (ruleSetCache sha interpreter CacheExample.settings).run .empty cacheEvents = some cache ∧
    cache.calls 0 = some ⟨0, 0, .returned ruleSet⟩ := @loads_row _ _ record _ rfl rfl record_loads

/-- The decision on the event. -/
def decision : TransactionDecision := transactionDecision event ruleSet score

/-- The rest of its recording. -/
def recordEvents : List RecordEvent := [.insertDecision 0 5, .insertHistory 0, .commit 0 true]

theorem records : ∃ begun recorded t,
    recordStep (fun _ => decision.data) .empty (.begin 0 ⟨decision, DecisionsExample.provenance 0⟩) = some begun ∧
      (decisions fun _ => decision.data).run begun recordEvents = some recorded ∧ recorded.transactions.rows = [t] := by
  refine ⟨_, _, ⟨transactionRecord decision 5, 0, DecisionsExample.provenance 0⟩, rfl, rfl, rfl⟩

/-- A version is published and loaded, and an event is scored with it and recorded. -/
theorem traced_run : ∃ s t, (tracing sha interpreter CacheExample.settings fun _ => decision.data).ReachableWhen
    (fun _ e => e.isStep = true) s ∧ s.decisions.transactions.rows = [t] := by
  obtain ⟨cache, hcache, hcall⟩ := loads_first
  obtain ⟨begun, recorded, t, hbegin, hrecorded, hrows⟩ := records
  obtain ⟨loads, hloads⟩ := @run_cache _ _ _ (fun _ => decision.data) .empty _ _ hcache
  have hscore : (tracing sha interpreter CacheExample.settings fun _ => decision.data).step
      { TraceState.empty with cache := cache, loads := loads } (.score 0 0 event (DecisionsExample.provenance 0)) =
      some { TraceState.empty with
        cache := cache
        loads := loads
        decisions := begun
        scorings := Function.update TraceState.empty.scorings 0 (some ⟨event, ruleSet, [], score⟩) } := by
    have hs : scoreTransaction (TraceState.transactions { TraceState.empty with cache := cache, loads := loads })
        ruleSet.definition (.ofEvent event) = .ok score := event_score
    have hb : recordStep (fun _ => decision.data) TraceState.empty.decisions
        (.begin 0 ⟨transactionDecision event ruleSet score, DecisionsExample.provenance 0⟩) = some begun := hbegin
    simp only [tracing, traceStep, hcall, hs, Scoring.decision, hb]
    rfl
  obtain ⟨s, hs⟩ : ∃ s, s = { TraceState.empty with
      cache := cache
      loads := loads
      decisions := begun
      scorings := Function.update TraceState.empty.scorings 0 (some ⟨event, ruleSet, [], score⟩) } := ⟨_, rfl⟩
  have hrun := @run_record sha interpreter CacheExample.settings (fun _ => decision.data) s recordEvents recorded
    (by simp [recordEvents, RecordEvent.begins]) (by rw [hs]; exact hrecorded)
  refine ⟨_, t, ((StepSystem.ReachableWhen.start rfl).run ?_ hloads |>.step rfl hscore).run ?_ (hs ▸ hrun), hrows⟩
  · refine StepSystem.meets_of_forall (fun e he _ => ?_) _
    obtain ⟨_, -, rfl⟩ := List.mem_map.mp he
    rfl
  · refine StepSystem.meets_of_forall (fun e he _ => ?_) _
    obtain ⟨_, -, rfl⟩ := List.mem_map.mp he
    rfl

end TraceExample

open TraceExample RoundTripExample in
/-- The first decision of a worker that has loaded the first version. -/
theorem decisions_traceable_first : ∃ s t,
    (tracing sha interpreter CacheExample.settings fun _ => decision.data).ReachableWhen (fun _ e => e.isStep = true) s ∧
      s.decisions.transactions.rows = [t] ∧ ∃ scoring, s.scorings t.call = some scoring ∧
        Traced sha interpreter s t.record scoring ∧ NamesVersion sha interpreter s t.record scoring.ruleSet.definition := by
  obtain ⟨s, t, hs, ht⟩ := traced_run
  obtain ⟨scoring, hscoring, htraced, hnames⟩ := decisions_traceable hs.reachable (ht ▸ List.mem_singleton_self t)
  exact ⟨s, t, hs, ht, scoring, hscoring, htraced, hnames hs⟩

end FraudDetection
