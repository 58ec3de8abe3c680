import FraudDetection.Theorems.Staleness
import FraudDetection.Theorems.Traceability

/-!
# Edited rows

A row that is edited in place is refused where it is read. What was read before the edit goes on to be used, layer by layer: a call
ends, then the Redis entry that it may have written expires, and then the copy that a provider may have filled from that entry.
-/

namespace FraudDetection

/-- The active version does not load. -/
def TraceState.Refused (sha : Sha256) (py : Interpreter) (settings : CacheSettings) (s : TraceState) : Prop :=
  ∀ ruleSet, getLatestRuleSet sha py s.cache.rows settings.key ≠ .ok ruleSet

/-- Nobody edits the Redis entry, and time passes only while every call and every publish is within a duration. -/
def TraceState.Timely (d : ℚ) (s : TraceState) (e : TraceEvent) : Prop :=
  (∀ value, e ≠ .editRedis value) ∧ ∀ event, e = .cache event → FraudDetection.Timely d s.cache event

section

variable (sha : Sha256) (py : Interpreter) (settings : CacheSettings) (data : Position → TransactionData)

/-- A timely step after which the active version does not load. -/
def StaysRefused (d : ℚ) (s : TraceState) (e : TraceEvent) : Prop :=
  s.Timely d e ∧ ∀ s', (tracing sha py settings data).step s e = some s' → s'.Refused sha py settings

end

/-- The rule set that a phase of a call carries. -/
def ActivePhase.ruleSet? : ActivePhase → Option RuleSet
  | .writingRedis ruleSet | .loaded ruleSet | .returned ruleSet => some ruleSet
  | _ => none

/-- How late a call can have started that carries a rule set read before a time. -/
def ActivePhase.Held (settings : CacheSettings) (d t startedAt : ℚ) : ActivePhase → Prop
  | .writingRedis _ => startedAt ≤ t
  | .loaded _ => startedAt < t + d + settings.redisTtl
  | .returned _ => startedAt < t + (settings.localTtl + settings.redisTtl + 2 * d)
  | _ => True

/-- How late a call can have started, and how long it has taken. -/
structure ActiveCall.Held (settings : CacheSettings) (d t now : ℚ) (call : ActiveCall) : Prop where
  started : call.startedAt ≤ now
  within : call.phase.finished = false → now ≤ call.startedAt + d
  phase : call.phase.Held settings d t call.startedAt

/-- How long each layer can hold a rule set that was read before a time. -/
structure HeldInv (settings : CacheSettings) (d t : ℚ) (s : CacheState) : Prop where
  now : t ≤ s.now
  publishes : ∀ p ruleSet u, s.publishes p = some (.committed ruleSet u) → u ≤ t ∧ s.now ≤ u + d
  redis : ∀ value, s.redis = some value → value.expiresAt ≤ t + d + settings.redisTtl
  copies : ∀ provider copy, s.copies provider = some copy → copy.cachedAt ≤ t + 2 * d + settings.redisTtl
  calls : ∀ c call, s.calls c = some call → call.Held settings d t s.now

namespace EditedRowsAux

open CacheAux

variable {sha : Sha256} {py : Interpreter} {settings : CacheSettings} {d t : ℚ} {s s' : CacheState}

/-! ## What is read -/

/-- A row whose JSON differs from the published definition in more than the order of its keys is refused. -/
theorem refused_of_edit {s : TraceState} {record : RuleSetVersionRecord} {raw : Json} {definition : RuleSetDefinition}
    (hlatest : latestRecord s.cache.rows settings.key = some record) (hraw : record.definition.toJson = some raw)
    (hhash : record.contentHash = contentHash sha definition) (hedit : raw.sortKeys ≠ definition.modelDump.sortKeys) :
    s.Refused sha py settings := by
  have hchanged : definitionJsonHash sha raw ≠ record.contentHash := by
    rw [hhash]
    intro h
    exact hedit (Json.canonical_eq_iff.mp (sha.injective h))
  intro ruleSet h
  unfold getLatestRuleSet ruleSetFromRecord loadStoredDefinition at h
  simp only [hlatest, hraw, ne_eq, hchanged, not_false_eq_true, if_true, Except.error_bind] at h
  cases h

/-- A call that reads the database carries a rule set afterwards only if the active version loads. -/
theorem select_cases {c : ℕ} {fails : Bool} (hs : (ruleSetCache sha py settings).step s (.selectLatest c fails) = some s') :
    ∃ call, s.calls c = some call ∧ call.phase = .readingDatabase ∧ ∃ q, s' = s.setPhase c call q ∧
      (q.ruleSet? = none ∨ ∃ ruleSet, q = .writingRedis ruleSet ∧
        getLatestRuleSet sha py s.rows settings.key = .ok ruleSet) := by
  simp only [ruleSetCache, cacheStep] at hs
  split at hs
  · rename_i provider startedAt hc
    cases hs
    refine ⟨_, hc, rfl, _, rfl, ?_⟩
    split
    · exact .inl rfl
    · cases hload : getLatestRuleSet sha py s.rows settings.key with
      | ok ruleSet => exact .inr ⟨ruleSet, rfl, rfl⟩
      | error e =>
        cases e with
        | corrupt e => exact .inl rfl
        | _ => exact .inl rfl
  · cases hs

/-- A new version is the latest. -/
theorem latestRecord_new {rows : List RuleSetVersionRecord} {key : String} {record : RuleSetVersionRecord}
    (hkey : record.ruleSetKey = key) (hversion : record.version = currentVersion rows key + 1) :
    latestRecord (rows ++ [record]) key = some record := by
  have hmem : record ∈ (rows ++ [record]).filter (·.ruleSetKey = key) :=
    List.mem_filter.mpr ⟨List.mem_append_right _ (List.mem_singleton_self _), by simpa using hkey⟩
  obtain ⟨latest, hlatest⟩ : ∃ latest, latestRecord (rows ++ [record]) key = some latest := by
    cases h : latestRecord (rows ++ [record]) key with
    | some latest => exact ⟨latest, rfl⟩
    | none =>
      rw [List.argmax_eq_none.mp h] at hmem
      cases hmem
  have hle := latestRecord_max hlatest record (List.mem_append_right _ (List.mem_singleton_self _)) hkey
  rcases List.mem_append.mp (List.mem_filter.mp (List.argmax_mem hlatest)).1 with hold | hnew
  · have hkey' : latest.ruleSetKey = key := by simpa using (List.mem_filter.mp (List.argmax_mem hlatest)).2
    have hcurrent : latest.version ≤ currentVersion rows latest.ruleSetKey := PublishAux.version_le_current hold
    rw [hkey'] at hcurrent
    omega
  · rw [hlatest, List.mem_singleton.mp hnew]

/-- A publish has a version to write to Redis only if that version loads, and then it is the active one. -/
theorem commit_cases {p : ℕ} {record : RuleSetVersionRecord}
    (hs : (ruleSetCache sha py settings).step s (.commit p record) = some s') :
    ∃ q, s' = (s.addVersion record).setPublish p q ∧ (q = .ended ∨ ∃ ruleSet, q = .committed ruleSet s.now ∧
      getLatestRuleSet sha py s'.rows settings.key = .ok ruleSet) := by
  simp only [ruleSetCache, cacheStep] at hs
  split at hs
  · cases hs
  · split at hs
    · rename_i hkv
      cases hs
      refine ⟨_, rfl, ?_⟩
      split
      · rename_i ruleSet hload
        refine .inr ⟨ruleSet, rfl, ?_⟩
        have hrows : ((s.addVersion record).setPublish p (.committed ruleSet s.now)).rows = s.rows ++ [record] := by
          simp only [CacheState.rows, CacheState.addVersion, CacheState.setPublish_versions, List.map_append, List.map_cons,
            List.map_nil]
        unfold getLatestRuleSet
        rw [hrows, latestRecord_new hkv.1 hkv.2]
        simp only [hload]
      · exact .inl rfl
    · cases hs

/-! ## The steps -/

/-- A later time bounds what an earlier one does. -/
theorem held_mono {u : ℚ} (h : HeldInv settings d t s) (htu : t ≤ u) (hu : u ≤ s.now) : HeldInv settings d u s where
  now := hu
  publishes p ruleSet v hp := by
    obtain ⟨h1, h2⟩ := h.publishes p ruleSet v hp
    exact ⟨h1.trans htu, h2⟩
  redis value hr := by
    have := h.redis value hr
    linarith
  copies provider copy hc := by
    have := h.copies provider copy hc
    linarith
  calls c call hc := by
    obtain ⟨h1, h2, h3⟩ := h.calls c call hc
    refine ⟨h1, h2, ?_⟩
    cases hp : call.phase with
    | writingRedis ruleSet =>
      rw [hp] at h3
      exact le_trans h3 htu
    | loaded ruleSet =>
      rw [hp] at h3
      have hstart : call.startedAt < t + d + settings.redisTtl := h3
      change call.startedAt < u + d + settings.redisTtl
      linarith
    | returned ruleSet =>
      rw [hp] at h3
      have hstart : call.startedAt < t + (settings.localTtl + settings.redisTtl + 2 * d) := h3
      change call.startedAt < u + (settings.localTtl + settings.redisTtl + 2 * d)
      linarith
    | _ => trivial

/-- A step that only moves a call keeps the bounds when the new phase has its own. -/
theorem held_setPhase {c : ℕ} {call : ActiveCall} {q : ActivePhase} (h : HeldInv settings d t s) (hs : call.startedAt ≤ s.now)
    (hw : q.finished = false → s.now ≤ call.startedAt + d) (hq : q.Held settings d t call.startedAt) :
    HeldInv settings d t (s.setPhase c call q) := by
  refine ⟨h.now, h.publishes, h.redis, h.copies, ?_⟩
  intro c' call' hc
  simp only [CacheState.setPhase] at hc
  rcases StepSystem.update_cases hc with ⟨-, hc⟩ | ⟨-, hc⟩
  · cases hc
    exact ⟨hs, hw, hq⟩
  · exact h.calls c' call' hc

/-- A call that ends keeps the bounds, whenever it began. -/
theorem held_finished {c : ℕ} {call : ActiveCall} {q : ActivePhase} (h : HeldInv settings d t s) (hs : call.startedAt ≤ s.now)
    (hf : q.finished = true) (hq : q.Held settings d t call.startedAt) : HeldInv settings d t (s.setPhase c call q) := by
  refine held_setPhase h hs (fun hu => ?_) hq
  rw [hf] at hu
  cases hu

theorem held_setCopy {provider : ℕ} {copy : Option CachedRuleSet} (h : HeldInv settings d t s)
    (hc : ∀ k, copy = some k → k.cachedAt ≤ t + 2 * d + settings.redisTtl) : HeldInv settings d t (s.setCopy provider copy) := by
  refine ⟨h.now, h.publishes, h.redis, ?_, h.calls⟩
  intro provider' k hk
  simp only [CacheState.setCopy] at hk
  rcases StepSystem.update_cases hk with ⟨-, hk⟩ | ⟨-, hk⟩
  · exact hc k hk
  · exact h.copies provider' k hk

theorem held_writeRedis {ruleSet : RuleSet} (fails : Bool) (h : HeldInv settings d t s) (ht : s.now ≤ t + d) :
    HeldInv settings d t (s.writeRedis settings ruleSet fails) := by
  constructor
  · rw [CacheState.writeRedis_now]
    exact h.now
  · intro p rs u hp
    rw [CacheState.writeRedis_publishes] at hp
    rw [CacheState.writeRedis_now]
    exact h.publishes p rs u hp
  · intro value hr
    rcases CacheState.writeRedis_redis _ _ _ _ hr with hr | ⟨-, rfl⟩
    · exact h.redis value hr
    · change s.now + settings.redisTtl ≤ _
      linarith
  · intro provider copy hc
    rw [CacheState.writeRedis_copies] at hc
    exact h.copies provider copy hc
  · intro c call hc
    rw [CacheState.writeRedis_calls] at hc
    rw [CacheState.writeRedis_now]
    exact h.calls c call hc

theorem held_ended {p : ℕ} (h : HeldInv settings d t s) : HeldInv settings d t (s.setPublish p .ended) := by
  refine ⟨h.now, ?_, h.redis, h.copies, h.calls⟩
  intro p' rs u hp
  simp only [CacheState.setPublish] at hp
  rcases StepSystem.update_cases hp with ⟨-, hp⟩ | ⟨-, hp⟩
  · cases hp
  · exact h.publishes p' rs u hp

/-- A version that has not been committed yet leaves the bounds, unless it is to be written to Redis. -/
theorem held_commit {p : ℕ} {record : RuleSetVersionRecord} {q : PublishPhase} (h : HeldInv settings d t s) (hd : 0 ≤ d)
    (hq : q = .ended ∨ ∃ ruleSet, q = .committed ruleSet s.now ∧ s.now ≤ t) :
    HeldInv settings d t ((s.addVersion record).setPublish p q) := by
  refine ⟨h.now, ?_, h.redis, h.copies, h.calls⟩
  intro p' rs u hp
  simp only [CacheState.setPublish] at hp
  rcases StepSystem.update_cases hp with ⟨-, hp⟩ | ⟨-, hp⟩
  · rcases hq with rfl | ⟨ruleSet, rfl, hnow⟩
    · cases hp
    · cases hp
      refine ⟨hnow, ?_⟩
      change s.now ≤ s.now + d
      linarith
  · exact h.publishes p' rs u hp

/-- A timely step keeps the bounds of a time, if the active version does not load after it or the time has not passed yet. -/
theorem held_step (hd : 0 ≤ d) {e : CacheEvent} (h : HeldInv settings d t s) (hg : Timely d s e)
    (hs : (ruleSetCache sha py settings).step s e = some s')
    (hnew : ∀ ruleSet, getLatestRuleSet sha py s'.rows settings.key = .ok ruleSet → s.now ≤ t) : HeldInv settings d t s' := by
  have hL := settings.localTtl_ok
  have hR : (1 : ℚ) ≤ settings.redisTtl := by exact_mod_cast settings.redisTtl_ok
  have hstep := step_of hs
  cases hstep with
  | hit c provider copy hc hk ha =>
    have hcached := h.copies provider copy hk
    refine held_finished h le_rfl rfl ?_
    change s.now < t + (settings.localTtl + settings.redisTtl + 2 * d)
    linarith
  | miss c provider hc => exact held_setPhase h le_rfl (fun _ => le_add_of_nonneg_right hd) trivial
  | redisHit c fails call ruleSet value entry hc hp hr hl he hv =>
    obtain ⟨h1, h2, -⟩ := h.calls c call hc
    have hexpires := h.redis value hr
    refine held_setPhase h h1 (fun _ => h2 (by rw [hp]; rfl)) ?_
    change call.startedAt < t + d + settings.redisTtl
    linarith
  | redisMiss c fails call hc hp =>
    obtain ⟨h1, h2, -⟩ := h.calls c call hc
    exact held_setPhase h h1 (fun _ => h2 (by rw [hp]; rfl)) trivial
  | selected c fails call ruleSet hc hp hm =>
    obtain ⟨h1, h2, -⟩ := h.calls c call hc
    obtain ⟨call', hc', -, q, hq, hread⟩ := select_cases hs
    have hphase : q = .writingRedis ruleSet := by
      have hcalls := congrArg (fun u : CacheState => u.calls c) hq
      simp only [CacheState.setPhase, Function.update_self] at hcalls
      exact (congrArg ActiveCall.phase (Option.some.inj hcalls)).symm
    rcases hread with hnone | ⟨rs, -, hload⟩
    · rw [hphase] at hnone
      cases hnone
    · refine held_setPhase h h1 (fun _ => h2 (by rw [hp]; rfl)) ?_
      exact h1.trans (hnew rs hload)
  | selectFailed c fails call q hc hp hq =>
    obtain ⟨h1, h2, -⟩ := h.calls c call hc
    refine held_setPhase h h1 (fun _ => h2 (by rw [hp]; rfl)) ?_
    rcases hq with ⟨e, rfl⟩ | ⟨e, rfl⟩ <;> trivial
  | reject c call e hc hp =>
    obtain ⟨h1, -, -⟩ := h.calls c call hc
    exact held_finished (held_setCopy h fun k hk => absurd hk (Option.some_ne_none k).symm) h1 rfl trivial
  | set c fails call ruleSet hc hp =>
    obtain ⟨h1, h2, h3⟩ := h.calls c call hc
    have hw := h2 (by rw [hp]; rfl)
    rw [hp] at h3
    have hstart : call.startedAt ≤ t := h3
    have hwritten := @held_writeRedis settings d t s ruleSet fails h (by linarith)
    refine held_setPhase hwritten (by simpa using h1) (fun _ => by simpa using hw) ?_
    change call.startedAt < t + d + settings.redisTtl
    linarith
  | fill c call ruleSet hc hp =>
    obtain ⟨h1, h2, h3⟩ := h.calls c call hc
    have hw := h2 (by rw [hp]; rfl)
    rw [hp] at h3
    have hstart : call.startedAt < t + d + settings.redisTtl := h3
    refine held_finished (held_setCopy h ?_) h1 rfl ?_
    · rintro k ⟨⟩
      change s.now ≤ _
      linarith
    · change call.startedAt < t + (settings.localTtl + settings.redisTtl + 2 * d)
      linarith
  | cancel c call hc hp =>
    obtain ⟨h1, -, -⟩ := h.calls c call hc
    exact held_finished h h1 rfl trivial
  | commit p record q hp hk hv hq =>
    obtain ⟨q', hq', hread⟩ := commit_cases hs
    have hphase : q' = q := by
      have hpublishes := congrArg (fun u : CacheState => u.publishes p) hq'
      simp only [CacheState.setPublish, Function.update_self] at hpublishes
      exact (Option.some.inj hpublishes).symm
    refine held_commit h hd ?_
    rcases hread with hended | ⟨rs, hcommitted, hload⟩
    · exact .inl (hphase ▸ hended)
    · exact .inr ⟨rs, hphase ▸ hcommitted, hnew rs hload⟩
  | overwrite p fails ruleSet u hp overwritten ho =>
    obtain ⟨h1, h2⟩ := h.publishes p ruleSet u hp
    have hwritten := held_ended (p := p) (@held_writeRedis settings d t s ruleSet fails h (by linarith))
    exact ⟨hwritten.now, hwritten.publishes, hwritten.redis, hwritten.copies, hwritten.calls⟩
  | abandon p ruleSet u hp => exact held_ended h
  | tick duration h0 =>
    obtain ⟨hcalls, hpublishes⟩ := hg duration rfl
    refine ⟨h.now.trans (le_add_of_nonneg_right h0), ?_, h.redis, h.copies, ?_⟩
    · intro p rs u hp
      exact ⟨(h.publishes p rs u hp).1, hpublishes p rs u hp⟩
    · intro c call hc
      obtain ⟨h1, -, h3⟩ := h.calls c call hc
      exact ⟨h1.trans (le_add_of_nonneg_right h0), fun hu => hcalls c call hc hu, h3⟩

/-- An empty cache holds nothing. -/
theorem held_empty (settings : CacheSettings) (d : ℚ) : HeldInv settings d 0 .empty := by
  refine ⟨le_rfl, ?_, ?_, ?_, ?_⟩
  · intro p ruleSet u hp
    cases hp
  · intro value hr
    cases hr
  · intro provider copy hc
    cases hc
  · intro c call hc
    cases hc

variable {data : Position → TransactionData}

/-- The clock does not go back. -/
theorem now_step {e : CacheEvent} (hs : (ruleSetCache sha py settings).step s e = some s') : s.now ≤ s'.now := by
  cases step_of hs with
  | tick duration h0 => exact le_add_of_nonneg_right h0
  | set c fails call ruleSet hc hp => simp
  | overwrite p fails ruleSet u hp overwritten ho => simp
  | _ => exact le_rfl

/-- A step of the worker or of a publish, or an edit of a row, keeps the bounds of a time. -/
theorem trace_step (hd : 0 ≤ d) {s s' : TraceState} {e : TraceEvent} (h : HeldInv settings d t s.cache) (hg : s.Timely d e)
    (hs : (tracing sha py settings data).step s e = some s')
    (hnew : ∀ ruleSet, getLatestRuleSet sha py s'.cache.rows settings.key = .ok ruleSet → s.cache.now ≤ t) :
    HeldInv settings d t s'.cache ∧ s.cache.now ≤ s'.cache.now := by
  cases e with
  | cache event =>
    obtain ⟨cache, hcache, rfl⟩ := Option.map_eq_some_iff.mp hs
    exact ⟨held_step hd h (hg.2 event rfl) hcache hnew, now_step hcache⟩
  | publishOther record =>
    simp only [tracing, traceStep] at hs
    split at hs
    · cases hs
    · cases hs
      exact ⟨h, le_rfl⟩
  | score call active event provenance =>
    simp only [tracing, traceStep] at hs
    split at hs
    · split at hs
      · cases hs
      · obtain ⟨decisions, -, rfl⟩ := Option.map_eq_some_iff.mp hs
        exact ⟨h, le_rfl⟩
    · cases hs
  | record event =>
    simp only [tracing, traceStep] at hs
    split at hs
    · cases hs
    · obtain ⟨decisions, -, rfl⟩ := Option.map_eq_some_iff.mp hs
      exact ⟨h, le_rfl⟩
  | editVersion index definition =>
    cases hs
    exact ⟨⟨h.now, h.publishes, h.redis, h.copies, h.calls⟩, le_rfl⟩
  | editOther index definition =>
    cases hs
    exact ⟨h, le_rfl⟩
  | editRedis value => exact absurd rfl (hg.1 value)

/-- What is held at any time was read before it. -/
theorem held_reachable (hd : 0 ≤ d) {s : TraceState}
    (h : (tracing sha py settings data).ReachableWhen (fun s e => s.Timely d e) s) : HeldInv settings d s.cache.now s.cache := by
  refine @StepSystem.ReachableWhen.invariant _ _ _ _ (fun s : TraceState => HeldInv settings d s.cache.now s.cache) ?_ ?_ s h
  · rintro s rfl
    exact held_empty settings d
  · intro s e s' hi hg hs
    obtain ⟨hheld, hnow⟩ := trace_step hd hi hg hs fun _ _ => le_rfl
    exact held_mono hheld hnow le_rfl

end EditedRowsAux

section

variable {sha : Sha256} {py : Interpreter} {settings : CacheSettings} {data : Position → TransactionData}

open EditedRowsAux

/-- Once the active version has been edited so that it does not load, and as long as it does not: a call that starts local TTL + Redis
TTL + 2d later carries no rule set, and by then no entry of Redis and no copy of a provider can be used any more. -/
theorem edited_row_refused {d : ℚ} (hd : 0 ≤ d) {t u : TraceState} {after : List TraceEvent}
    (ht : (tracing sha py settings data).ReachableWhen (fun s e => s.Timely d e) t)
    (hm : (tracing sha py settings data).Meets (StaysRefused sha py settings data d) t after)
    (hr : (tracing sha py settings data).run t after = some u) :
    (∀ c call, u.cache.calls c = some call →
      t.cache.now + (settings.localTtl + settings.redisTtl + 2 * d) ≤ call.startedAt → call.phase.ruleSet? = none) ∧
    (t.cache.now + (settings.localTtl + settings.redisTtl + 2 * d) ≤ u.cache.now → u.cache.payload = none ∧
      ∀ provider copy, u.cache.copies provider = some copy → settings.localTtl ≤ u.cache.now - copy.cachedAt) := by
  have hL := settings.localTtl_ok
  have hR : (1 : ℚ) ≤ settings.redisTtl := by exact_mod_cast settings.redisTtl_ok
  have hheld : HeldInv settings d t.cache.now u.cache := by
    refine @StepSystem.Meets.invariant _ _ _ _ (fun s : TraceState => HeldInv settings d t.cache.now s.cache) ?_ _ _ _ hm hr
      (held_reachable hd ht)
    intro s e s' hi hg hs
    exact (trace_step hd hi hg.1 hs fun ruleSet hload => absurd hload (hg.2 s' hs ruleSet)).1
  refine ⟨fun c call hc hstart => ?_, fun hnow => ⟨?_, fun provider copy hcopy => ?_⟩⟩
  · obtain ⟨-, -, hphase⟩ := hheld.calls c call hc
    cases hp : call.phase with
    | writingRedis ruleSet =>
      rw [hp] at hphase
      have hlate : call.startedAt ≤ t.cache.now := hphase
      linarith
    | loaded ruleSet =>
      rw [hp] at hphase
      have hlate : call.startedAt < t.cache.now + d + settings.redisTtl := hphase
      linarith
    | returned ruleSet =>
      rw [hp] at hphase
      exact absurd hstart (not_le.mpr hphase)
    | _ => rfl
  · unfold CacheState.payload
    cases hvalue : u.cache.redis with
    | none => rfl
    | some value =>
      have hexpires := hheld.redis value hvalue
      exact if_neg (by linarith)
  · have hcached := hheld.copies provider copy hcopy
    linarith

end

namespace EditedRowsExample

open RoundTripExample CacheExample EditedRowsAux CacheAux

/-- The first version is committed and written to Redis, and a provider keeps a copy of it. -/
def cacheEvents : List CacheEvent := [.commit 0 (record 1), .start 0 0, .getRedis 0 false, .selectLatest 0 false, .setRedis 0 false,
  .fill 0, .overwrite 0 false]

/-- After a minute and more, another call reads both layers. -/
def lateEvents : List CacheEvent := [.tick 67, .start 1 0, .getRedis 1 false, .selectLatest 1 false]

/-- The copy is filled, and nobody is at work. -/
theorem cached {row : RuleSetVersionRecord} {loaded : RuleSet} (hkey : row.ruleSetKey = settings.key) (hversion : row.version = 1)
    (hload : ruleSetFromRecord digest interpreter row = .ok loaded) :
    ∃ cache, (ruleSetCache digest interpreter settings).run .empty [.commit 0 row, .start 0 0, .getRedis 0 false, .selectLatest 0 false,
        .setRedis 0 false, .fill 0, .overwrite 0 false] = some cache ∧
      cache.versions = [⟨row, 0⟩] ∧ cache.now = 0 ∧ cache.redis = some ⟨some (serialise loaded), 60⟩ ∧
      cache.copies 0 = some ⟨loaded, 0⟩ ∧ cache.calls = Function.update (fun _ => none) 0 (some ⟨0, 0, .returned loaded⟩) ∧
      cache.publishes = Function.update (fun _ => none) 0 (some .ended) := by
  have hc : row.ruleSetKey = settings.key ∧ row.version = currentVersion CacheState.empty.rows settings.key + 1 := ⟨hkey, hversion⟩
  have hlatest : getLatestRuleSet digest interpreter [row] "fraud-default" = .ok loaded := getLatestRuleSet_singleton hkey hload
  simp only [StepSystem.run, ruleSetCache, cacheStep, CacheState.empty] at hc ⊢
  simp [hc, hload, CacheState.setPublish, CacheState.addVersion, startPhase, CacheState.setPhase, CacheState.readRedis,
    CacheState.payload, CacheState.rows, hlatest, CacheState.writeRedis, CacheState.setCopy, settings]

/-- Its row, edited. -/
def edited : RuleSetVersionRecord := { record 1 with definition := .null }

theorem edited_refused {s : TraceState} (h : s.cache.versions = [⟨edited, 0⟩]) : s.Refused digest interpreter settings := by
  have hlatest : latestRecord s.cache.rows settings.key = some edited := by
    simp only [CacheState.rows, h, List.map_cons, List.map_nil]
    rfl
  refine @refused_of_edit _ _ _ _ _ _ whole hlatest rfl rfl ?_
  intro h
  cases h

/-- Accesses that commit nothing leave the row as it was edited. -/
theorem meets_stays {es : List CacheEvent} {s : TraceState} {d : ℚ} (h : s.cache.versions = [⟨edited, 0⟩])
    (hes : ∀ e ∈ es, ∀ p row, e ≠ .commit p row) (hm : (ruleSetCache digest interpreter settings).Meets (Timely d) s.cache es)
    (data : Position → TransactionData) :
    (tracing digest interpreter settings data).Meets (StaysRefused digest interpreter settings data d) s (es.map .cache) := by
  induction es generalizing s with
  | nil => trivial
  | cons e es ih =>
    have hstep : ∀ s', (tracing digest interpreter settings data).step s (.cache e) = some s' →
        (ruleSetCache digest interpreter settings).step s.cache e = some s'.cache ∧ s'.cache.versions = [⟨edited, 0⟩] := by
      intro s' hs
      obtain ⟨cache, hcache, rfl⟩ := Option.map_eq_some_iff.mp hs
      refine ⟨hcache, ?_⟩
      rw [← h]
      cases step_of hcache with
      | commit p record q hp hk hv hq => exact absurd rfl (hes _ List.mem_cons_self p record)
      | set c fails call ruleSet hc hp => simp
      | overwrite p fails ruleSet u hp overwritten ho => simp
      | _ => rfl
    refine ⟨⟨⟨?_, ?_⟩, fun s' hs => edited_refused (hstep s' hs).2⟩, fun s' hs => ?_⟩
    · intro value hvalue
      cases hvalue
    · rintro event ⟨⟩
      exact hm.1
    · obtain ⟨hcache, hversions⟩ := hstep s' hs
      exact ih hversions (fun e he => hes e (List.mem_cons_of_mem _ he)) (hm.2 s'.cache hcache)

end EditedRowsExample

open EditedRowsExample RoundTripExample CacheExample in
/-- A call after the row was edited and every copy has expired. -/
theorem edited_row_refused_null : ∃ t u call, (tracing digest interpreter settings fun _ => TraceExample.decision.data).ReachableWhen
      (fun s e => s.Timely 1 e) t ∧
    (tracing digest interpreter settings fun _ => TraceExample.decision.data).run t (lateEvents.map .cache) = some u ∧
    t.cache.copies 0 = some ⟨ruleSet 1, 0⟩ ∧ u.cache.calls 1 = some call ∧ call.startedAt = 67 ∧ call.phase.ruleSet? = none := by
  obtain ⟨cache, hrun, hversions, hnow, hredis, hcopy, hcalls, hpublishes⟩ := @cached (record 1) _ rfl rfl (record_loads 1)
  obtain ⟨loads, hloads⟩ := @TraceAux.run_cache _ _ _ (fun _ => TraceExample.decision.data) .empty _ _ hrun
  obtain ⟨s, hs⟩ : ∃ s : CacheState, s = { cache with versions := [⟨edited, 0⟩] } := ⟨_, rfl⟩
  have hedit : (tracing digest interpreter settings fun _ => TraceExample.decision.data).step
      { TraceState.empty with cache := cache, loads := loads } (.editVersion 0 .null) =
        some { TraceState.empty with cache := s, loads := loads } := by
    simp only [tracing, traceStep, hs, hversions]
    rfl
  have hreach : (tracing digest interpreter settings fun _ => TraceExample.decision.data).ReachableWhen (fun s e => s.Timely 1 e)
      { TraceState.empty with cache := s, loads := loads } := by
    refine ((StepSystem.ReachableWhen.start rfl).run (StepSystem.meets_of_forall ?_ _) hloads).step ⟨?_, ?_⟩ hedit
    · intro e he t
      obtain ⟨event, hevent, rfl⟩ := List.mem_map.mp he
      refine ⟨?_, ?_⟩
      · intro value hvalue
        cases hvalue
      · rintro _ ⟨⟩
        refine timely_of_ne ?_
        rintro duration rfl
        simp at hevent
    · intro value hvalue
      cases hvalue
    · intro event hevent
      cases hevent
  have htimely : (ruleSetCache digest interpreter settings).Meets (Timely 1) s lateEvents := by
    refine ⟨fun duration he => ⟨fun c call hc hf => ?_, fun p rs u hp => ?_⟩, fun s' _ => StepSystem.meets_of_forall ?_ s'⟩
    · rw [hs, hcalls] at hc
      rcases StepSystem.update_cases hc with ⟨-, hc⟩ | ⟨-, hc⟩
      · cases hc
        cases hf
      · cases hc
    · rw [hs, hpublishes] at hp
      rcases StepSystem.update_cases hp with ⟨-, hp⟩ | ⟨-, hp⟩
      · cases hp
      · cases hp
    · intro e he t
      refine timely_of_ne ?_
      rintro duration rfl
      simp at he
  obtain ⟨v, call, hv, hcall, hstarted⟩ : ∃ v call, (ruleSetCache digest interpreter settings).run s lateEvents = some v ∧
      v.calls 1 = some call ∧ call.startedAt = 67 := by
    simp only [StepSystem.run, lateEvents, ruleSetCache, cacheStep]
    norm_num [hs, hcalls, hcopy, hnow, hredis, startPhase, CacheState.setPhase, CacheState.readRedis, CacheState.payload, settings]
  obtain ⟨later, hlater⟩ := @TraceAux.run_cache _ _ _ (fun _ => TraceExample.decision.data)
    { TraceState.empty with cache := s, loads := loads } _ _ hv
  have hmeets := @meets_stays lateEvents { TraceState.empty with cache := s, loads := loads } 1 (by rw [hs]) (by simp [lateEvents]) htimely
    fun _ => TraceExample.decision.data
  refine ⟨_, _, call, hreach, hlater, ?_, hcall, hstarted, ?_⟩
  · rw [hs]
    exact hcopy
  · refine (edited_row_refused (by norm_num) hreach hmeets hlater).1 1 call hcall ?_
    rw [hstarted, hs, hnow]
    norm_num [settings]

end FraudDetection
