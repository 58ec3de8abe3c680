import FraudDetection.Theorems.Staleness

/-!
# When a publish takes effect

A publish overwrites the Redis entry so that every provider switches once its copy expires. The entry has two kinds of writers,
publishes and calls that missed, and neither looks at what it overwrites. So a call that read PostgreSQL before the publish may
put the old version back after it, and the switch waits for that entry to expire.
-/

namespace FraudDetection

/-- The steps do not write to Redis a version older than one that a publish has already written there. -/
def WritesForward (s : CacheState) (e : CacheEvent) : Prop :=
  (∀ c call ruleSet, e = .setRedis c false → s.calls c = some call → call.phase = .writingRedis ruleSet →
    ∀ n ∈ s.overwritten, n ≤ ruleSet.version) ∧
  ∀ p ruleSet t, e = .overwrite p false → s.publishes p = some (.committed ruleSet t) →
    ∀ n ∈ s.overwritten, n ≤ ruleSet.version

/-- A run in which a publish writes version `n` to Redis, the calls in flight then finish, more than the local TTL passes after
that, and a call that starts now returns. -/
structure SwitchRun (sha : Sha256) (py : Interpreter) (settings : CacheSettings) (guard : CacheState → CacheEvent → Prop)
    (n : ℕ) (result : RuleSet) where
  (before overwritten settled later started ended : CacheState)
  (settling waiting running : List CacheEvent)
  (publish provider call : ℕ)
  ruleSet : RuleSet
  committedAt : ℚ
  version : ruleSet.version = n
  reachable : (ruleSetCache sha py settings).ReachableWhen guard before
  committed : before.publishes publish = some (.committed ruleSet committedAt)
  allowed : guard before (.overwrite publish false)
  overwrites : (ruleSetCache sha py settings).step before (.overwrite publish false) = some overwritten
  settles : (ruleSetCache sha py settings).run overwritten settling = some settled
  meetsSettling : (ruleSetCache sha py settings).Meets guard overwritten settling
  finished : ∀ c call, overwritten.calls c = some call → ∃ call', settled.calls c = some call' ∧ call'.phase.finished = true
  waits : (ruleSetCache sha py settings).run settled waiting = some later
  meetsWaiting : (ruleSetCache sha py settings).Meets guard settled waiting
  elapsed : settled.now + settings.localTtl < later.now
  starts : (ruleSetCache sha py settings).step later (.start call provider) = some started
  runs : (ruleSetCache sha py settings).run started running = some ended
  meetsRunning : (ruleSetCache sha py settings).Meets guard started running
  returns : ∃ c, ended.calls call = some c ∧ c.phase = .returned result

/-- Every such run of steps that meet a condition ends with the published version or a newer one. -/
def SwitchesWithinTtl (sha : Sha256) (py : Interpreter) (settings : CacheSettings) (guard : CacheState → CacheEvent → Prop) :
    Prop :=
  ∀ n result, Nonempty (SwitchRun sha py settings guard n result) → n ≤ result.version

/-- What holds in every reachable state, whatever is written. -/
structure PastInv (settings : CacheSettings) (s : CacheState) : Prop where
  keys : ∀ v ∈ s.versions, v.record.ruleSetKey = settings.key
  publishes : ∀ p ruleSet t, s.publishes p = some (.committed ruleSet t) → ∃ v ∈ s.versions, v.record.version = ruleSet.version
  copies : ∀ provider copy, s.copies provider = some copy → copy.cachedAt ≤ s.now

/-- The rule set a call is about to write or to keep. -/
def ActivePhase.carried : ActivePhase → Option RuleSet
  | .writingRedis ruleSet | .loaded ruleSet => some ruleSet
  | _ => none

/-- What holds once version `n` has been written to Redis by a publish, while nothing older is written there: the layers have
`n` or newer, but for what the calls in `old` may still carry and the copies that are `stale`. -/
structure SwitchInv (settings : CacheSettings) (n : ℕ) (old : ℕ → Prop) (stale : CachedRuleSet → Prop) (s : CacheState) :
    Prop where
  written : n ∈ s.overwritten
  stored : ∃ v ∈ s.versions, n ≤ v.record.version ∧ v.record.ruleSetKey = settings.key
  redis : ∀ value entry, s.redis = some value → value.payload = some entry → n ≤ entry.version
  calls : ∀ c call, s.calls c = some call → old c ∨ ∀ ruleSet, call.phase.carried = some ruleSet → n ≤ ruleSet.version
  started : ∀ c, old c → s.calls c ≠ none
  copies : ∀ provider copy, s.copies provider = some copy → stale copy ∨ n ≤ copy.ruleSet.version

namespace SwitchAux

open CacheAux

/-! ## What is always so -/

theorem past_step {settings : CacheSettings} {s s' : CacheState} {e : CacheEvent} (h : PastInv settings s)
    (hs : Step settings s e s') : PastInv settings s' := by
  cases hs with
  | set c fails call ruleSet hc hp =>
    refine ⟨by simpa using h.keys, by simpa using h.publishes, by simpa using h.copies⟩
  | reject c call e hc hp =>
    refine ⟨h.keys, h.publishes, fun provider copy hk => ?_⟩
    simp only [CacheState.setPhase, CacheState.setCopy] at hk
    rcases StepSystem.update_cases hk with ⟨-, hk⟩ | ⟨-, hk⟩
    · cases hk
    · exact h.copies provider copy hk
  | fill c call ruleSet hc hp =>
    refine ⟨h.keys, h.publishes, fun provider copy hk => ?_⟩
    simp only [CacheState.setPhase, CacheState.setCopy] at hk
    rcases StepSystem.update_cases hk with ⟨-, hk⟩ | ⟨-, hk⟩
    · cases hk
      exact le_rfl
    · exact h.copies provider copy hk
  | commit p record q hp hk hv hq =>
    have hmem : ∀ v ∈ s.versions, v ∈ ((s.addVersion record).setPublish p q).versions := fun v hv =>
      List.mem_append_left _ hv
    refine ⟨fun v hm => ?_, fun p' ruleSet t hp' => ?_, h.copies⟩
    · rcases List.mem_append.mp hm with hm | hm
      · exact h.keys v hm
      · rw [List.mem_singleton.mp hm]
        exact hk
    · simp only [CacheState.setPublish] at hp'
      rcases StepSystem.update_cases hp' with ⟨-, hp'⟩ | ⟨-, hp'⟩
      · rcases hq with rfl | ⟨rs, rfl, hver⟩
        · cases hp'
        · cases hp'
          exact ⟨⟨record, s.now⟩, List.mem_append_right _ (List.mem_singleton_self _), hver.symm⟩
      · obtain ⟨v, hm, hver⟩ := h.publishes p' ruleSet t hp'
        exact ⟨v, hmem v hm, hver⟩
  | overwrite p fails ruleSet t hp overwritten ho =>
    refine ⟨by simpa using h.keys, fun p' rs t' hp' => ?_, by simpa using h.copies⟩
    simp only [CacheState.setPublish, CacheState.writeRedis_publishes] at hp'
    rcases StepSystem.update_cases hp' with ⟨-, hp'⟩ | ⟨-, hp'⟩
    · cases hp'
    · simpa using h.publishes p' rs t' hp'
  | abandon p ruleSet t hp =>
    refine ⟨h.keys, fun p' rs t' hp' => ?_, h.copies⟩
    simp only [CacheState.setPublish] at hp'
    rcases StepSystem.update_cases hp' with ⟨-, hp'⟩ | ⟨-, hp'⟩
    · cases hp'
    · exact h.publishes p' rs t' hp'
  | tick duration h0 =>
    exact ⟨h.keys, h.publishes, fun provider copy hk => (h.copies provider copy hk).trans (le_add_of_nonneg_right h0)⟩
  | _ => exact ⟨h.keys, h.publishes, h.copies⟩

theorem past_reachable {sha : Sha256} {py : Interpreter} {settings : CacheSettings} {s : CacheState}
    (h : (ruleSetCache sha py settings).Reachable s) : PastInv settings s := by
  refine StepSystem.Reachable.invariant ?_ ?_ h
  · rintro s rfl
    refine ⟨?_, ?_, ?_⟩
    · intro v hv
      cases hv
    · intro p ruleSet t hp
      cases hp
    · intro provider copy hk
      cases hk
  · intro s e s' hi hs
    exact past_step hi (step_of hs)

/-! ## After the publish has written -/

variable {settings : CacheSettings} {n : ℕ} {old : ℕ → Prop} {stale : CachedRuleSet → Prop} {s s' : CacheState} {c : ℕ}

/-- A call goes on to a phase that carries nothing older, or is an old call. -/
theorem inv_setPhase {call : ActiveCall} {q : ActivePhase} (h : SwitchInv settings n old stale s)
    (hq : old c ∨ ∀ ruleSet, q.carried = some ruleSet → n ≤ ruleSet.version) :
    SwitchInv settings n old stale (s.setPhase c call q) := by
  refine ⟨h.written, h.stored, h.redis, fun c' call' hc => ?_, fun c' ho => ?_, h.copies⟩
  · simp only [CacheState.setPhase] at hc
    rcases StepSystem.update_cases hc with ⟨heq, hc⟩ | ⟨-, hc⟩
    · cases hc
      exact heq ▸ hq
    · exact h.calls c' call' hc
  · simp only [CacheState.setPhase]
    by_cases heq : c' = c
    · rw [heq, Function.update_self]
      exact Option.some_ne_none _
    · rw [Function.update_of_ne heq]
      exact h.started c' ho

theorem inv_setCopy {provider : ℕ} {copy : Option CachedRuleSet} (h : SwitchInv settings n old stale s)
    (hk : ∀ k, copy = some k → stale k ∨ n ≤ k.ruleSet.version) :
    SwitchInv settings n old stale (s.setCopy provider copy) := by
  refine ⟨h.written, h.stored, h.redis, h.calls, h.started, fun provider' k hc => ?_⟩
  simp only [CacheState.setCopy] at hc
  rcases StepSystem.update_cases hc with ⟨-, hc⟩ | ⟨-, hc⟩
  · exact hk k hc
  · exact h.copies provider' k hc

/-- A write to Redis, unless it fails, is of version `n` or newer. -/
theorem inv_writeRedis (ruleSet : RuleSet) (fails : Bool) (h : SwitchInv settings n old stale s)
    (hn : fails = false → n ≤ ruleSet.version) : SwitchInv settings n old stale (s.writeRedis settings ruleSet fails) := by
  refine ⟨by simpa using h.written, by simpa using h.stored, fun value entry hr he => ?_, by simpa using h.calls,
    by simpa using h.started, by simpa using h.copies⟩
  rcases CacheState.writeRedis_redis _ _ _ _ hr with hr | ⟨hf, rfl⟩
  · exact h.redis value entry hr he
  · cases he
    exact hn hf

/-- Every step that writes nothing older keeps the invariant. -/
theorem inv_step {e : CacheEvent} (hstale : ∀ c copy, old c → stale copy) (h : SwitchInv settings n old stale s)
    (hg : WritesForward s e) (hs : Step settings s e s') : SwitchInv settings n old stale s' := by
  cases hs with
  | hit c provider copy hc hk ha => exact inv_setPhase h (Or.inr nofun)
  | miss c provider hc => exact inv_setPhase h (Or.inr nofun)
  | redisHit c fails call ruleSet value entry hc hp hr hl he hv =>
    refine inv_setPhase h (Or.inr ?_)
    rintro rs ⟨⟩
    rw [hv]
    exact h.redis value entry hr he
  | redisMiss c fails call hc hp => exact inv_setPhase h (Or.inr nofun)
  | selected c fails call ruleSet hc hp hm =>
    refine inv_setPhase h (Or.inr ?_)
    rintro rs ⟨⟩
    obtain ⟨v, hv, hle, hk⟩ := h.stored
    exact hle.trans (hm v.record (List.mem_map_of_mem hv) hk)
  | selectFailed c fails call q hc hp hq =>
    refine inv_setPhase h (Or.inr ?_)
    rcases hq with ⟨e, rfl⟩ | ⟨e, rfl⟩ <;> exact nofun
  | reject c call e hc hp => exact inv_setPhase (inv_setCopy h nofun) (Or.inr nofun)
  | set c fails call ruleSet hc hp =>
    have hcarried := h.calls c call hc
    rw [hp] at hcarried
    refine inv_setPhase (inv_writeRedis ruleSet fails h ?_) hcarried
    rintro rfl
    exact hg.1 c call ruleSet rfl hc hp n h.written
  | fill c call ruleSet hc hp =>
    have hcarried := h.calls c call hc
    rw [hp] at hcarried
    refine inv_setPhase (inv_setCopy h ?_) (Or.inr nofun)
    rintro k ⟨⟩
    rcases hcarried with ho | hle
    · exact Or.inl (hstale c _ ho)
    · exact Or.inr (hle ruleSet rfl)
  | cancel c call hc hp => exact inv_setPhase h (Or.inr nofun)
  | commit p record q hp hk hv hq =>
    obtain ⟨v, hm, hv'⟩ := h.stored
    exact ⟨h.written, ⟨v, List.mem_append_left _ hm, hv'⟩, h.redis, h.calls, h.started, h.copies⟩
  | overwrite p fails ruleSet t hp overwritten ho =>
    have hle : fails = false → n ≤ ruleSet.version := by
      rintro rfl
      exact hg.2 p ruleSet t rfl hp n h.written
    have hw := inv_writeRedis ruleSet fails h hle
    refine ⟨?_, hw.stored, hw.redis, hw.calls, hw.started, hw.copies⟩
    cases fails with
    | false =>
      rw [ho]
      exact List.mem_cons_of_mem _ h.written
    | true =>
      rw [ho]
      exact h.written
  | abandon p ruleSet t hp => exact ⟨h.written, h.stored, h.redis, h.calls, h.started, h.copies⟩
  | tick duration h0 => exact ⟨h.written, h.stored, h.redis, h.calls, h.started, h.copies⟩

/-- A call that is under way returns nothing older, once no call carries anything older. -/
theorem result_step {e : CacheEvent} (h : SwitchInv settings n (fun _ => False) stale s) (hs : Step settings s e s')
    {call : ActiveCall} (hc : s.calls c = some call) (hr : ∀ result, call.phase = .returned result → n ≤ result.version) :
    ∃ call', s'.calls c = some call' ∧ ∀ result, call'.phase = .returned result → n ≤ result.version := by
  -- a call that moves to a phase other than its return has nothing to show yet
  have hmove : ∀ (t : CacheState) (d : ℕ) (k : ActiveCall) (q : ActivePhase), t.calls = s.calls →
      (∀ result, q = .returned result → n ≤ result.version) →
      ∃ call', (t.setPhase d k q).calls c = some call' ∧ ∀ result, call'.phase = .returned result → n ≤ result.version := by
    intro t d k q ht hq
    simp only [CacheState.setPhase]
    by_cases heq : c = d
    · rw [heq, Function.update_self]
      exact ⟨_, rfl, hq⟩
    · rw [Function.update_of_ne heq, ht]
      exact ⟨call, hc, hr⟩
  cases hs with
  | hit d provider copy hd hk ha =>
    have hne : c ≠ d := by
      rintro rfl
      rw [hc] at hd
      cases hd
    refine ⟨call, ?_, hr⟩
    simp only [CacheState.setPhase]
    rw [Function.update_of_ne hne]
    exact hc
  | miss d provider hd => exact hmove s _ _ _ rfl (by simp)
  | redisHit d fails k ruleSet value entry hd hp hr' hl he hv => exact hmove s _ _ _ rfl (by simp)
  | redisMiss d fails k hd hp => exact hmove s _ _ _ rfl (by simp)
  | selected d fails k ruleSet hd hp hm => exact hmove s _ _ _ rfl (by simp)
  | selectFailed d fails k q hd hp hq =>
    refine hmove s _ _ _ rfl ?_
    rcases hq with ⟨e, rfl⟩ | ⟨e, rfl⟩ <;> simp
  | reject d k e hd hp => exact hmove _ _ _ _ rfl (by simp)
  | set d fails k ruleSet hd hp => exact hmove _ _ _ _ (by simp) (by simp)
  | fill d k ruleSet hd hp =>
    refine hmove _ _ _ _ rfl ?_
    rintro result ⟨⟩
    have hcarried := h.calls d k hd
    rw [hp] at hcarried
    rcases hcarried with ho | hle
    · exact ho.elim
    · exact hle ruleSet rfl
  | cancel d k hd hp => exact hmove s _ _ _ rfl (by simp)
  | commit p record q hp hk hv hq => exact ⟨call, hc, hr⟩
  | overwrite p fails ruleSet t hp overwritten ho => exact ⟨call, by simpa using hc, hr⟩
  | abandon p ruleSet t hp => exact ⟨call, hc, hr⟩
  | tick duration h0 => exact ⟨call, hc, hr⟩

/-- The write of the publish itself establishes the invariant: what was under way before it may be old. -/
theorem inv_overwritten {sha : Sha256} {py : Interpreter} {p : ℕ} {ruleSet : RuleSet} {t : ℚ} (h : PastInv settings s)
    (hp : s.publishes p = some (.committed ruleSet t))
    (hs : (ruleSetCache sha py settings).step s (.overwrite p false) = some s') :
    SwitchInv settings ruleSet.version (fun c => s'.calls c ≠ none) (fun _ => True) s' := by
  simp only [ruleSetCache, cacheStep, hp, CacheState.writeRedis] at hs
  cases hs
  obtain ⟨v, hv, hver⟩ := h.publishes p ruleSet t hp
  refine ⟨List.mem_cons_self, ⟨v, hv, hver.ge, h.keys v hv⟩, ?_, ?_, fun c hc => hc, fun _ _ _ => Or.inl trivial⟩
  · intro value entry hr he
    cases hr
    cases he
    exact le_rfl
  · intro c call hc
    refine Or.inl ?_
    rw [hc]
    exact Option.some_ne_none _

theorem carried_finished {q : ActivePhase} (h : q.finished = true) : q.carried = none := by
  cases q with
  | returned ruleSet => rfl
  | raised e => rfl
  | _ => cases h

/-- Once the old calls have finished, only the copies they left behind are old. -/
theorem inv_settled {t : CacheState} (h : SwitchInv settings n (fun c => t.calls c ≠ none) (fun _ => True) s)
    (hp : PastInv settings s)
    (hf : ∀ c call, t.calls c = some call → ∃ call', s.calls c = some call' ∧ call'.phase.finished = true) :
    SwitchInv settings n (fun _ => False) (fun copy => copy.cachedAt ≤ s.now) s := by
  refine ⟨h.written, h.stored, h.redis, fun c call hc => Or.inr ?_, nofun, fun provider copy hk =>
    Or.inl (hp.copies provider copy hk)⟩
  rcases h.calls c call hc with ho | hle
  · obtain ⟨k, hk⟩ := Option.ne_none_iff_exists'.mp ho
    obtain ⟨call', hc', hfin⟩ := hf c k hk
    rw [hc] at hc'
    cases hc'
    intro ruleSet hcarried
    rw [carried_finished hfin] at hcarried
    cases hcarried
  · exact hle

/-- A call that starts when the old copies have expired does not return one of them. -/
theorem result_started {sha : Sha256} {py : Interpreter} {provider : ℕ} {now : ℚ}
    (h : SwitchInv settings n (fun _ => False) (fun copy => copy.cachedAt ≤ now) s) (hnow : now + settings.localTtl < s.now)
    (hs : (ruleSetCache sha py settings).step s (.start c provider) = some s') :
    ∃ call, s'.calls c = some call ∧ ∀ result, call.phase = .returned result → n ≤ result.version := by
  have hstep : Step settings s (.start c provider) s' := step_of hs
  cases hstep with
  | hit _ _ copy hc hk ha =>
    refine ⟨_, Function.update_self .., ?_⟩
    rintro result ⟨⟩
    rcases h.copies provider copy hk with hold | hle
    · linarith
    · exact hle
  | miss _ _ hc => exact ⟨_, Function.update_self .., nofun⟩

end SwitchAux

open SwitchAux CacheAux in
/-- A publish switches every provider within the local TTL, in every run that writes to Redis no version older than one a publish
has already written there. -/
theorem publish_switches_of_writesForward (sha : Sha256) (py : Interpreter) (settings : CacheSettings) :
    SwitchesWithinTtl sha py settings WritesForward := by
  rintro n result ⟨run⟩
  have hbefore := run.reachable.reachable
  have hoverwritten := StepSystem.ReachableWhen.step hbefore trivial run.overwrites
  have hsettled := StepSystem.Reachable.run hoverwritten run.settles
  have h1 := inv_overwritten (past_reachable hbefore) run.committed run.overwrites
  rw [run.version] at h1
  have h2 := run.meetsSettling.invariant (fun s e s' hi hg hs => inv_step (fun _ _ _ => trivial) hi hg (step_of hs))
    run.settles h1
  have h3 := inv_settled h2 (past_reachable hsettled) run.finished
  have hstep : ∀ s e s', SwitchInv settings n (fun _ => False) (fun copy => copy.cachedAt ≤ run.settled.now) s →
      WritesForward s e → (ruleSetCache sha py settings).step s e = some s' →
      SwitchInv settings n (fun _ => False) (fun copy => copy.cachedAt ≤ run.settled.now) s' := by
    intro s e s' hi hg hs
    exact inv_step (fun _ _ ho => ho.elim) hi hg (step_of hs)
  have h4 := run.meetsWaiting.invariant hstep run.waits h3
  have hstart := result_started h4 run.elapsed run.starts
  have hforward : WritesForward run.later (.start run.call run.provider) := by
    refine ⟨?_, ?_⟩
    · intro c call ruleSet he
      cases he
    · intro p ruleSet t he
      cases he
  have h5 := hstep _ _ _ h4 hforward run.starts
  have hresult : ∀ s e s', (SwitchInv settings n (fun _ => False) (fun copy => copy.cachedAt ≤ run.settled.now) s ∧
      ∃ call, s.calls run.call = some call ∧ ∀ result, call.phase = .returned result → n ≤ result.version) →
      WritesForward s e → (ruleSetCache sha py settings).step s e = some s' →
      SwitchInv settings n (fun _ => False) (fun copy => copy.cachedAt ≤ run.settled.now) s' ∧
      ∃ call, s'.calls run.call = some call ∧ ∀ result, call.phase = .returned result → n ≤ result.version := by
    rintro s e s' ⟨hi, call, hc, hr⟩ hg hs
    exact ⟨hstep s e s' hi hg hs, result_step hi (step_of hs) hc hr⟩
  obtain ⟨-, call, hc, hr⟩ := run.meetsRunning.invariant hresult run.runs ⟨h5, hstart⟩
  obtain ⟨call', hc', hr'⟩ := run.returns
  rw [hc] at hc'
  cases hc'
  exact hr result hr'

namespace SwitchExample

open RoundTripExample CacheExample StepSystem

section

variable {sha : Sha256} {py : Interpreter} {row : RuleSetVersionRecord} {loaded : RuleSet}

/-- A call without a copy to use returns what the Redis entry holds. -/
theorem read_entry {s : CacheState} {entry : CacheEntry} (hload : deserialise sha py entry = .ok (some loaded)) (c provider : ℕ)
    (expiresAt : ℚ) (hc : s.calls c = none) (hk : s.copies provider = none) (hr : s.redis = some ⟨some entry, expiresAt⟩)
    (hl : s.now < expiresAt) : ∃ t u, (ruleSetCache sha py settings).step s (.start c provider) = some t ∧
      (ruleSetCache sha py settings).run t [.getRedis c false, .fill c] = some u ∧
      ∃ call, u.calls c = some call ∧ call.phase = .returned loaded := by
  simp [run, ruleSetCache, cacheStep, hc, hk, startPhase, CacheState.setPhase, CacheState.readRedis, CacheState.payload, hr,
    hl, hload, CacheState.setCopy]

/-- A first version is committed, and then written to Redis. -/
theorem publish_first (hkey : row.ruleSetKey = settings.key) (hversion : row.version = 1)
    (hload : ruleSetFromRecord sha py row = .ok loaded) :
    ∃ s t, (ruleSetCache sha py settings).run .empty [.commit 0 row] = some s ∧
      s.publishes 0 = some (.committed loaded 0) ∧ s.overwritten = [] ∧
      (ruleSetCache sha py settings).step s (.overwrite 0 false) = some t ∧ t.now = 0 ∧
      t.redis = some ⟨some (serialise loaded), 60⟩ ∧ t.copies = (fun _ => none) ∧ t.calls = fun _ => none := by
  have hc : row.ruleSetKey = settings.key ∧ row.version = currentVersion CacheState.empty.rows settings.key + 1 := ⟨hkey, hversion⟩
  simp only [run, ruleSetCache, cacheStep, CacheState.empty] at hc ⊢
  simp [hc, hload, CacheState.setPublish, CacheState.addVersion, CacheState.writeRedis, settings]

end

/-- Only writes to Redis are restricted. -/
theorem writesForward_of_ne {s : CacheState} {e : CacheEvent} (h : ∀ c, e ≠ .setRedis c false)
    (h' : ∀ p, e ≠ .overwrite p false) : WritesForward s e :=
  ⟨fun c _ _ he => absurd he (h c), fun p _ _ he => absurd he (h' p)⟩

/-- A publish, and a call six seconds later. -/
theorem switch_first : Nonempty (SwitchRun digest interpreter settings WritesForward 1 (ruleSet 1)) := by
  obtain ⟨before, overwritten, hrun, hp, ho, hover, hnow, hr, hk, hc⟩ := @publish_first _ _ (record 1) _ rfl rfl (record_loads 1)
  obtain ⟨started, ended, hstart, hrunning, hreturns⟩ := read_entry
    (s := { overwritten with now := overwritten.now + 6 }) (entry_loads 1) 0 0 60 (by simp only [hc]) (by simp only [hk]) hr
    (by simp only [hnow]; norm_num)
  refine ⟨{
    before := before, overwritten := overwritten, settled := overwritten
    later := { overwritten with now := overwritten.now + 6 }
    started := started, ended := ended
    settling := [], waiting := [.tick 6], running := [.getRedis 0 false, .fill 0]
    publish := 0, provider := 0, call := 0
    ruleSet := ruleSet 1, committedAt := 0, version := rfl
    reachable := ?_, committed := hp, allowed := ?_, overwrites := hover, settles := rfl
    meetsSettling := trivial
    finished := ?_
    waits := by
      rw [run, CacheAux.step_tick _ _ _ _ (by norm_num)]
      rfl
    meetsWaiting := ?_
    elapsed := ?_
    starts := hstart, runs := hrunning
    meetsRunning := ?_
    returns := hreturns }⟩
  · refine (StepSystem.ReachableWhen.start rfl).run (meets_of_forall ?_ _) hrun
    intro e he t
    rw [List.mem_singleton.mp he]
    exact writesForward_of_ne (by simp) (by simp)
  · refine ⟨by simp, ?_⟩
    intro p ruleSet t _ _ n hn
    rw [ho] at hn
    cases hn
  · intro c call hcall
    rw [hc] at hcall
    cases hcall
  · refine meets_of_forall ?_ _
    intro e he t
    rw [List.mem_singleton.mp he]
    exact writesForward_of_ne (by simp) (by simp)
  · simp only [settings]
    linarith
  · refine meets_of_forall ?_ _
    intro e he t
    rcases List.mem_cons.mp he with rfl | he
    · exact writesForward_of_ne (by simp) (by simp)
    · rw [List.mem_singleton.mp he]
      exact writesForward_of_ne (by simp) (by simp)

end SwitchExample

open SwitchExample CacheExample RoundTripExample in
/-- Six seconds after a publish a call returns its version. -/
theorem publish_switches_of_writesForward_first :
    Nonempty (SwitchRun digest interpreter settings WritesForward 1 (ruleSet 1)) ∧ 1 ≤ (ruleSet 1).version :=
  ⟨switch_first, publish_switches_of_writesForward digest interpreter settings 1 (ruleSet 1) switch_first⟩

namespace SwitchExample

open RoundTripExample CacheExample StepSystem

section

variable {sha : Sha256} {py : Interpreter} {first second : RuleSetVersionRecord} {old new : RuleSet}

/-- A call reads a first version from PostgreSQL, and a second is committed before it writes that to Redis. -/
theorem read_before_commit (hkey : first.ruleSetKey = settings.key) (hversion : first.version = 1)
    (hold : ruleSetFromRecord sha py first = .ok old) (hkey' : second.ruleSetKey = settings.key) (hversion' : second.version = 2)
    (hnew : ruleSetFromRecord sha py second = .ok new) {s : CacheState} (hv : s.versions = [⟨first, 0⟩]) (hr : s.redis = none)
    (hk : s.copies = fun _ => none) (hc : s.calls = fun _ => none) (hp : s.publishes 1 = none) (hnow : s.now = 0) :
    ∃ t, (ruleSetCache sha py settings).run s
      [.start 0 0, .getRedis 0 false, .selectLatest 0 false, .commit 1 second] = some t ∧
      t.now = 0 ∧ t.copies = (fun _ => none) ∧ t.publishes 1 = some (.committed new 0) ∧
      t.calls = Function.update (fun _ => none) 0 (some ⟨0, 0, .writingRedis old⟩) := by
  have hlatest : getLatestRuleSet sha py [first] settings.key = .ok old := getLatestRuleSet_singleton hkey hold
  have hcurrent : currentVersion [first] settings.key = 1 := by
    simp [currentVersion, hkey, hversion]
  have hnext : second.ruleSetKey = settings.key ∧ second.version = currentVersion [first] settings.key + 1 := by
    rw [hcurrent]
    exact ⟨hkey', hversion'⟩
  simp [run, ruleSetCache, cacheStep, hc, hk, hp, hnow, startPhase, CacheState.setPhase, CacheState.readRedis,
    CacheState.payload, hr, CacheState.rows, hv, hlatest, hnext, hnew, CacheState.setPublish, CacheState.addVersion]

/-- The publish writes the second version to Redis, and the call then writes the first over it. -/
theorem write_back {s : CacheState} (hnow : s.now = 0) (hk : s.copies = fun _ => none)
    (hp : s.publishes 1 = some (.committed new 0))
    (hc : s.calls = Function.update (fun _ => none) 0 (some ⟨0, 0, .writingRedis old⟩)) :
    ∃ t u, (ruleSetCache sha py settings).step s (.overwrite 1 false) = some t ∧ t.calls = s.calls ∧
      (ruleSetCache sha py settings).run t [.setRedis 0 false, .fill 0] = some u ∧ u.now = 0 ∧
      u.redis = some ⟨some (serialise old), 60⟩ ∧ u.copies 1 = none ∧
      u.calls = Function.update (fun _ => none) 0 (some ⟨0, 0, .returned old⟩) := by
  simp [run, ruleSetCache, cacheStep, hc, hk, hp, hnow, CacheState.setPhase, CacheState.writeRedis, CacheState.setPublish,
    CacheState.setCopy, settings]

end

/-- The condition that holds everywhere is met by every run. -/
theorem meets_true (s : CacheState) (es : List CacheEvent) :
    (ruleSetCache digest interpreter settings).Meets (fun _ _ => True) s es := meets_of_forall (fun _ _ _ => trivial) s

/-- The late write-back, as a run of a publish of version 2 after which a call returns version 1. -/
theorem late_writeBack : Nonempty (SwitchRun digest interpreter settings (fun _ _ => True) 2 (ruleSet 1)) := by
  obtain ⟨s, hrun, hv, hnow, hr, hk, hc, -, -, hp⟩ := @commit_unwritten _ _ (record 1) _ rfl rfl (record_loads 1)
  obtain ⟨before, hread, hnow, hk, hp, hc⟩ :=
    @read_before_commit _ _ _ (record 2) _ _ rfl rfl (record_loads 1) rfl rfl (record_loads 2) _ hv hr hk hc hp hnow
  obtain ⟨overwritten, settled, hover, hcalls, hsettle, hnow', hr, hk', hc'⟩ := @write_back digest interpreter _ _ _ hnow hk hp hc
  obtain ⟨started, ended, hstart, hrunning, hreturns⟩ := read_entry
    (s := { settled with now := settled.now + 6 }) (entry_loads 1) 1 1 60 (by simp [hc']) hk' hr (by simp only [hnow']; norm_num)
  have hreach : (ruleSetCache digest interpreter settings).Reachable before :=
    StepSystem.Reachable.run (StepSystem.Reachable.run (.start rfl) hrun) hread
  refine ⟨{
    before := before, overwritten := overwritten, settled := settled
    later := { settled with now := settled.now + 6 }
    started := started, ended := ended
    settling := [.setRedis 0 false, .fill 0], waiting := [.tick 6], running := [.getRedis 1 false, .fill 1]
    publish := 1, provider := 1, call := 1
    ruleSet := ruleSet 2, committedAt := 0, version := rfl
    reachable := hreach, committed := hp, allowed := trivial, overwrites := hover, settles := hsettle
    meetsSettling := meets_true _ _
    finished := ?_
    waits := by
      rw [run, CacheAux.step_tick _ _ _ _ (by norm_num)]
      rfl
    meetsWaiting := meets_true _ _
    elapsed := ?_
    starts := hstart, runs := hrunning
    meetsRunning := meets_true _ _
    returns := hreturns }⟩
  · intro c call hcall
    rw [hcalls, hc] at hcall
    rw [hc']
    by_cases h0 : c = 0
    · rw [h0, Function.update_self]
      exact ⟨_, rfl, rfl⟩
    · rw [Function.update_of_ne h0] at hcall
      cases hcall
  · simp only [settings]
    linarith

end SwitchExample

open SwitchExample CacheExample RoundTripExample in
/-- A successful publish does not always switch the providers within the local TTL: a call that read PostgreSQL before the
commit writes the version before back to Redis after the publish has overwritten it. -/
theorem publish_switches_false : ¬SwitchesWithinTtl digest interpreter settings fun _ _ => True := by
  intro h
  exact absurd (h 2 (ruleSet 1) late_writeBack) (by decide)

end FraudDetection
