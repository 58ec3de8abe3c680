import FraudDetection.Cache
import FraudDetection.Theorems.Publish

/-!
# The steps of the rule-set cache

What each step of `cacheStep` does, said once, and what a rule set that comes from a layer has of that layer's version.
-/

namespace FraudDetection

namespace CacheState

variable (s : CacheState)

/-! ## What the updates leave -/

@[simp] theorem setPhase_now (c : ℕ) (call : ActiveCall) (q : ActivePhase) : (s.setPhase c call q).now = s.now := rfl
@[simp] theorem setPhase_versions (c : ℕ) (call : ActiveCall) (q : ActivePhase) :
    (s.setPhase c call q).versions = s.versions := rfl
@[simp] theorem setPhase_redis (c : ℕ) (call : ActiveCall) (q : ActivePhase) : (s.setPhase c call q).redis = s.redis := rfl
@[simp] theorem setPhase_copies (c : ℕ) (call : ActiveCall) (q : ActivePhase) : (s.setPhase c call q).copies = s.copies := rfl
@[simp] theorem setPhase_publishes (c : ℕ) (call : ActiveCall) (q : ActivePhase) :
    (s.setPhase c call q).publishes = s.publishes := rfl
@[simp] theorem setPhase_overwritten (c : ℕ) (call : ActiveCall) (q : ActivePhase) :
    (s.setPhase c call q).overwritten = s.overwritten := rfl

@[simp] theorem setCopy_now (i : ℕ) (copy : Option CachedRuleSet) : (s.setCopy i copy).now = s.now := rfl
@[simp] theorem setCopy_versions (i : ℕ) (copy : Option CachedRuleSet) : (s.setCopy i copy).versions = s.versions := rfl
@[simp] theorem setCopy_redis (i : ℕ) (copy : Option CachedRuleSet) : (s.setCopy i copy).redis = s.redis := rfl
@[simp] theorem setCopy_calls (i : ℕ) (copy : Option CachedRuleSet) : (s.setCopy i copy).calls = s.calls := rfl
@[simp] theorem setCopy_publishes (i : ℕ) (copy : Option CachedRuleSet) : (s.setCopy i copy).publishes = s.publishes := rfl
@[simp] theorem setCopy_overwritten (i : ℕ) (copy : Option CachedRuleSet) : (s.setCopy i copy).overwritten = s.overwritten := rfl

@[simp] theorem setPublish_now (p : ℕ) (q : PublishPhase) : (s.setPublish p q).now = s.now := rfl
@[simp] theorem setPublish_versions (p : ℕ) (q : PublishPhase) : (s.setPublish p q).versions = s.versions := rfl
@[simp] theorem setPublish_redis (p : ℕ) (q : PublishPhase) : (s.setPublish p q).redis = s.redis := rfl
@[simp] theorem setPublish_copies (p : ℕ) (q : PublishPhase) : (s.setPublish p q).copies = s.copies := rfl
@[simp] theorem setPublish_calls (p : ℕ) (q : PublishPhase) : (s.setPublish p q).calls = s.calls := rfl
@[simp] theorem setPublish_overwritten (p : ℕ) (q : PublishPhase) : (s.setPublish p q).overwritten = s.overwritten := rfl

variable (settings : CacheSettings) (ruleSet : RuleSet) (fails : Bool)

@[simp] theorem writeRedis_now : (s.writeRedis settings ruleSet fails).now = s.now := by
  unfold writeRedis
  split <;> rfl

@[simp] theorem writeRedis_versions : (s.writeRedis settings ruleSet fails).versions = s.versions := by
  unfold writeRedis
  split <;> rfl

@[simp] theorem writeRedis_copies : (s.writeRedis settings ruleSet fails).copies = s.copies := by
  unfold writeRedis
  split <;> rfl

@[simp] theorem writeRedis_calls : (s.writeRedis settings ruleSet fails).calls = s.calls := by
  unfold writeRedis
  split <;> rfl

@[simp] theorem writeRedis_publishes : (s.writeRedis settings ruleSet fails).publishes = s.publishes := by
  unfold writeRedis
  split <;> rfl

@[simp] theorem writeRedis_overwritten : (s.writeRedis settings ruleSet fails).overwritten = s.overwritten := by
  unfold writeRedis
  split <;> rfl

/-- The entry after a write: the one before, or one of the version written. -/
theorem writeRedis_redis {value : RedisValue} (h : (s.writeRedis settings ruleSet fails).redis = some value) :
    s.redis = some value ∨ (fails = false ∧ value = ⟨some (serialise ruleSet), s.now + settings.redisTtl⟩) := by
  unfold writeRedis at h
  split at h
  · exact Or.inl h
  · rename_i hf
    exact Or.inr ⟨by simpa using hf, (Option.some.inj h).symm⟩

end CacheState

namespace CacheAux

/-! ## Versions along the layers -/

/-- A rule set has the version of the row it is loaded from. -/
theorem ruleSetFromRecord_version {sha : Sha256} {py : Interpreter} {record : RuleSetVersionRecord} {ruleSet : RuleSet}
    (h : ruleSetFromRecord sha py record = .ok ruleSet) : ruleSet.version = record.version := by
  unfold ruleSetFromRecord at h
  split at h
  · cases h
  · obtain ⟨definition, -, heq⟩ := Except.bind_eq_ok.mp h
    cases heq
    rfl

/-- A rule set has the version of the entry it is read from. -/
theorem deserialise_version {sha : Sha256} {py : Interpreter} {entry : CacheEntry} {ruleSet : RuleSet}
    (h : deserialise sha py entry = .ok (some ruleSet)) : ruleSet.version = entry.version := by
  unfold deserialise at h
  split at h
  · cases h
  · obtain ⟨definition, -, heq⟩ := Except.bind_eq_ok.mp h
    cases heq
    rfl

/-- The latest row of a key has the highest version. -/
theorem latestRecord_max {rows : List RuleSetVersionRecord} {key : String} {record : RuleSetVersionRecord}
    (h : latestRecord rows key = some record) : ∀ r ∈ rows, r.ruleSetKey = key → r.version ≤ record.version := by
  intro r hr hk
  have hm : r ∈ rows.filter (·.ruleSetKey = key) := List.mem_filter.mpr ⟨hr, by simpa using hk⟩
  exact List.le_of_mem_argmax hm (Option.mem_def.mpr h)

/-- What `get_latest_rule_set` returns has at least the version of every row of the key. -/
theorem getLatestRuleSet_max {sha : Sha256} {py : Interpreter} {rows : List RuleSetVersionRecord} {key : String}
    {ruleSet : RuleSet} (h : getLatestRuleSet sha py rows key = .ok ruleSet) :
    ∀ r ∈ rows, r.ruleSetKey = key → r.version ≤ ruleSet.version := by
  unfold getLatestRuleSet at h
  split at h
  · cases h
  · rename_i record hl
    split at h
    · rename_i rs hrs
      cases h
      rw [ruleSetFromRecord_version hrs]
      exact latestRecord_max hl
    · cases h

/-- What is read from Redis has the version of an entry that has not expired. -/
theorem readRedis_some {sha : Sha256} {py : Interpreter} {s : CacheState} {fails : Bool} {ruleSet : RuleSet}
    (h : s.readRedis sha py fails = some ruleSet) : ∃ value entry, s.redis = some value ∧ s.now < value.expiresAt ∧
      value.payload = some entry ∧ ruleSet.version = entry.version := by
  unfold CacheState.readRedis CacheState.payload at h
  split at h
  · cases h
  · split at h
    · cases h
    · rename_i entry hp
      split at h
      · rename_i rs hd
        subst h
        split at hp
        · cases hp
        · rename_i value hr
          split at hp
          · rename_i hl
            exact ⟨value, entry, hr, hl, hp, deserialise_version hd⟩
          · cases hp
      · cases h

/-! ## The steps -/

/-- What a step of a call, of a publish or of the clock does. -/
inductive Step (settings : CacheSettings) (s : CacheState) : CacheEvent → CacheState → Prop where
  | hit (c provider : ℕ) (copy : CachedRuleSet) (hc : s.calls c = none) (hk : s.copies provider = some copy)
      (ha : s.now - copy.cachedAt < settings.localTtl) :
      Step settings s (.start c provider) (s.setPhase c ⟨provider, s.now, .readingRedis⟩ (.returned copy.ruleSet))
  | miss (c provider : ℕ) (hc : s.calls c = none) :
      Step settings s (.start c provider) (s.setPhase c ⟨provider, s.now, .readingRedis⟩ .readingRedis)
  | redisHit (c : ℕ) (fails : Bool) (call : ActiveCall) (ruleSet : RuleSet) (value : RedisValue) (entry : CacheEntry)
      (hc : s.calls c = some call) (hp : call.phase = .readingRedis) (hr : s.redis = some value)
      (hl : s.now < value.expiresAt) (he : value.payload = some entry) (hv : ruleSet.version = entry.version) :
      Step settings s (.getRedis c fails) (s.setPhase c call (.loaded ruleSet))
  | redisMiss (c : ℕ) (fails : Bool) (call : ActiveCall) (hc : s.calls c = some call) (hp : call.phase = .readingRedis) :
      Step settings s (.getRedis c fails) (s.setPhase c call .readingDatabase)
  | selected (c : ℕ) (fails : Bool) (call : ActiveCall) (ruleSet : RuleSet) (hc : s.calls c = some call)
      (hp : call.phase = .readingDatabase) (hm : ∀ r ∈ s.rows, r.ruleSetKey = settings.key → r.version ≤ ruleSet.version) :
      Step settings s (.selectLatest c fails) (s.setPhase c call (.writingRedis ruleSet))
  | selectFailed (c : ℕ) (fails : Bool) (call : ActiveCall) (q : ActivePhase) (hc : s.calls c = some call)
      (hp : call.phase = .readingDatabase) (hq : (∃ e, q = .rejected e) ∨ ∃ e, q = .raised e) :
      Step settings s (.selectLatest c fails) (s.setPhase c call q)
  | reject (c : ℕ) (call : ActiveCall) (e : LoadError) (hc : s.calls c = some call) (hp : call.phase = .rejected e) :
      Step settings s (.reject c) ((s.setCopy call.provider none).setPhase c call (.raised (.corrupt e)))
  | set (c : ℕ) (fails : Bool) (call : ActiveCall) (ruleSet : RuleSet) (hc : s.calls c = some call)
      (hp : call.phase = .writingRedis ruleSet) :
      Step settings s (.setRedis c fails) ((s.writeRedis settings ruleSet fails).setPhase c call (.loaded ruleSet))
  | fill (c : ℕ) (call : ActiveCall) (ruleSet : RuleSet) (hc : s.calls c = some call) (hp : call.phase = .loaded ruleSet) :
      Step settings s (.fill c)
        ((s.setCopy call.provider (some ⟨ruleSet, s.now⟩)).setPhase c call (.returned ruleSet))
  | cancel (c : ℕ) (call : ActiveCall) (hc : s.calls c = some call) (hp : call.phase.finished = false) :
      Step settings s (.cancel c) (s.setPhase c call (.raised .cancelled))
  | commit (p : ℕ) (record : RuleSetVersionRecord) (q : PublishPhase) (hp : s.publishes p = none)
      (hk : record.ruleSetKey = settings.key) (hv : record.version = currentVersion s.rows settings.key + 1)
      (hq : q = .ended ∨ ∃ ruleSet : RuleSet, q = .committed ruleSet s.now ∧ ruleSet.version = record.version) :
      Step settings s (.commit p record) ((s.addVersion record).setPublish p q)
  | overwrite (p : ℕ) (fails : Bool) (ruleSet : RuleSet) (committedAt : ℚ)
      (hp : s.publishes p = some (.committed ruleSet committedAt)) (overwritten : List ℕ)
      (ho : overwritten = if fails then s.overwritten else ruleSet.version :: s.overwritten) :
      Step settings s (.overwrite p fails)
        { (s.writeRedis settings ruleSet fails).setPublish p .ended with overwritten := overwritten }
  | abandon (p : ℕ) (ruleSet : RuleSet) (committedAt : ℚ) (hp : s.publishes p = some (.committed ruleSet committedAt)) :
      Step settings s (.abandon p) (s.setPublish p .ended)
  | tick (duration : ℚ) (h0 : 0 ≤ duration) : Step settings s (.tick duration) { s with now := s.now + duration }

/-- Every step of the system is one of these. -/
theorem step_of {sha : Sha256} {py : Interpreter} {settings : CacheSettings} {s s' : CacheState} {e : CacheEvent}
    (h : (ruleSetCache sha py settings).step s e = some s') : Step settings s e s' := by
  unfold ruleSetCache at h
  cases e with
  | start c provider =>
    simp only [cacheStep] at h
    split at h
    · cases h
    · rename_i hc
      cases h
      cases hk : s.copies provider with
      | none => exact .miss c provider hc
      | some copy =>
        unfold startPhase
        simp only
        split
        · rename_i ha
          exact .hit c provider copy hc hk ha
        · exact .miss c provider hc
  | getRedis c fails =>
    simp only [cacheStep] at h
    split at h
    · rename_i provider startedAt hc
      cases h
      split
      · rename_i ruleSet hr
        obtain ⟨value, entry, hv, hl, he, hver⟩ := readRedis_some hr
        exact .redisHit c fails _ ruleSet value entry hc rfl hv hl he hver
      · exact .redisMiss c fails _ hc rfl
    · cases h
  | selectLatest c fails =>
    simp only [cacheStep] at h
    split at h
    · rename_i provider startedAt hc
      cases h
      split
      · exact .selectFailed c fails _ _ hc rfl (Or.inr ⟨_, rfl⟩)
      · split
        · rename_i ruleSet hl
          exact .selected c fails _ ruleSet hc rfl (getLatestRuleSet_max hl)
        · exact .selectFailed c fails _ _ hc rfl (Or.inl ⟨_, rfl⟩)
        · exact .selectFailed c fails _ _ hc rfl (Or.inr ⟨_, rfl⟩)
    · cases h
  | reject c =>
    simp only [cacheStep] at h
    split at h
    · rename_i provider startedAt e hc
      cases h
      exact .reject c ⟨provider, startedAt, .rejected e⟩ e hc rfl
    · cases h
  | setRedis c fails =>
    simp only [cacheStep] at h
    split at h
    · rename_i provider startedAt ruleSet hc
      cases h
      exact .set c fails _ ruleSet hc rfl
    · cases h
  | fill c =>
    simp only [cacheStep] at h
    split at h
    · rename_i provider startedAt ruleSet hc
      cases h
      exact .fill c ⟨provider, startedAt, .loaded ruleSet⟩ ruleSet hc rfl
    · cases h
  | cancel c =>
    simp only [cacheStep] at h
    split at h
    · rename_i call hc
      split at h
      · cases h
      · rename_i hf
        cases h
        exact .cancel c call hc (by simpa using hf)
    · cases h
  | commit p record =>
    simp only [cacheStep] at h
    split at h
    · cases h
    · rename_i hp
      split at h
      · rename_i hkv
        cases h
        refine .commit p record _ hp hkv.1 hkv.2 ?_
        split
        · rename_i ruleSet hr
          exact Or.inr ⟨ruleSet, rfl, ruleSetFromRecord_version hr⟩
        · exact Or.inl rfl
      · cases h
  | overwrite p fails =>
    simp only [cacheStep] at h
    split at h
    · rename_i ruleSet committedAt hp
      cases fails
      · cases h
        exact .overwrite p false ruleSet committedAt hp _ rfl
      · cases h
        exact .overwrite p true ruleSet committedAt hp s.overwritten rfl
    · cases h
  | abandon p =>
    simp only [cacheStep] at h
    split at h
    · rename_i ruleSet committedAt hp
      cases h
      exact .abandon p ruleSet committedAt hp
    · cases h
  | tick duration =>
    simp only [cacheStep] at h
    split at h
    · rename_i h0
      cases h
      exact .tick duration h0
    · cases h

/-- Time can always pass. -/
theorem step_tick (sha : Sha256) (py : Interpreter) (settings : CacheSettings) (s : CacheState) {duration : ℚ}
    (h : 0 ≤ duration) :
    (ruleSetCache sha py settings).step s (.tick duration) = some { s with now := s.now + duration } := if_pos h

end CacheAux

end FraudDetection
