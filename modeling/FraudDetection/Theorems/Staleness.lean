import FraudDetection.Lemmas.Cache
import Mathlib.Tactic.Linarith

/-!
# Bounded staleness

How old a version may be is bounded layer by layer. A version read from PostgreSQL is as new as the start of its call; a Redis
entry as its expiry, less its time to live and one call; a copy as its filling, less the time to live of the entry it may come
from and two calls.
-/

namespace FraudDetection

/-- No version committed before a time is newer than this one. -/
def Fresh (s : CacheState) (t : ℚ) (version : ℕ) : Prop :=
  t ≤ s.now ∧ ∀ v ∈ s.versions, v.committedAt < t → v.record.version ≤ version

/-- Time passes only while every call, and every publish after its commit, is within a duration. -/
def Timely (d : ℚ) (s : CacheState) (e : CacheEvent) : Prop :=
  ∀ duration, e = .tick duration →
    (∀ c call, s.calls c = some call → call.phase.finished = false → s.now + duration ≤ call.startedAt + d) ∧
      ∀ p ruleSet t, s.publishes p = some (.committed ruleSet t) → s.now + duration ≤ t + d

/-- How new the rule set is that a phase of a call carries. -/
def ActivePhase.Fresh (settings : CacheSettings) (d : ℚ) (s : CacheState) (startedAt : ℚ) : ActivePhase → Prop
  | .writingRedis ruleSet => FraudDetection.Fresh s startedAt ruleSet.version
  | .loaded ruleSet => ∃ t, startedAt - settings.redisTtl - d < t ∧ FraudDetection.Fresh s t ruleSet.version
  | .returned ruleSet => ∃ t, startedAt - settings.localTtl - settings.redisTtl - 2 * d < t ∧
      FraudDetection.Fresh s t ruleSet.version
  | _ => True

/-- How new the rule set of a call is, and how long the call has taken. -/
structure ActiveCall.Fresh (settings : CacheSettings) (d : ℚ) (s : CacheState) (call : ActiveCall) : Prop where
  started : call.startedAt ≤ s.now
  within : call.phase.finished = false → s.now ≤ call.startedAt + d
  phase : call.phase.Fresh settings d s call.startedAt

/-- What holds in every state that timely steps reach: how new the version in each layer is. -/
structure StalenessInv (settings : CacheSettings) (d : ℚ) (s : CacheState) : Prop where
  keys : ∀ v ∈ s.versions, v.record.ruleSetKey = settings.key
  publishes : ∀ p ruleSet t, s.publishes p = some (.committed ruleSet t) → s.now ≤ t + d ∧ Fresh s t ruleSet.version
  redis : ∀ value entry, s.redis = some value → value.payload = some entry →
    Fresh s (value.expiresAt - settings.redisTtl - d) entry.version
  copies : ∀ provider copy, s.copies provider = some copy →
    Fresh s (copy.cachedAt - settings.redisTtl - 2 * d) copy.ruleSet.version
  calls : ∀ c call, s.calls c = some call → call.Fresh settings d s

namespace StalenessAux

open CacheAux PublishAux

/-! ## Freshness -/

theorem fresh_earlier {s : CacheState} {t u : ℚ} {n : ℕ} (h : Fresh s t n) (hu : u ≤ t) : Fresh s u n :=
  ⟨hu.trans h.1, fun v hv hlt => h.2 v hv (hlt.trans_le hu)⟩

/-- A version committed from now on is committed no earlier than now. -/
theorem fresh_later {s s' : CacheState} {t : ℚ} {n : ℕ} (h : Fresh s t n) (hnow : s.now ≤ s'.now)
    (hv : ∀ v ∈ s'.versions, v ∈ s.versions ∨ s.now ≤ v.committedAt) : Fresh s' t n := by
  refine ⟨h.1.trans hnow, fun v hm hlt => ?_⟩
  rcases hv v hm with hold | hnew
  · exact h.2 v hold hlt
  · exact absurd (hlt.trans_le (h.1.trans hnew)) (lt_irrefl _)

theorem phase_later {settings : CacheSettings} {d : ℚ} {s s' : CacheState} {startedAt : ℚ} {q : ActivePhase}
    (h : q.Fresh settings d s startedAt) (hf : ∀ t n, Fresh s t n → Fresh s' t n) : q.Fresh settings d s' startedAt := by
  cases q with
  | writingRedis ruleSet => exact hf _ _ h
  | loaded ruleSet =>
    obtain ⟨t, ht, hfresh⟩ := h
    exact ⟨t, ht, hf _ _ hfresh⟩
  | returned ruleSet =>
    obtain ⟨t, ht, hfresh⟩ := h
    exact ⟨t, ht, hf _ _ hfresh⟩
  | _ => trivial

/-! ## The steps -/

/-- A step that only moves a call keeps the invariant when the new phase is as fresh as it has to be. -/
theorem inv_setPhase {settings : CacheSettings} {d : ℚ} {s : CacheState} {c : ℕ} {call : ActiveCall} {q : ActivePhase}
    (h : StalenessInv settings d s) (hs : call.startedAt ≤ s.now) (hw : q.finished = false → s.now ≤ call.startedAt + d)
    (hq : q.Fresh settings d s call.startedAt) : StalenessInv settings d (s.setPhase c call q) := by
  have hf : ∀ t n, Fresh s t n → Fresh (s.setPhase c call q) t n := fun t n hfresh => hfresh
  refine ⟨h.keys, h.publishes, h.redis, h.copies, ?_⟩
  intro c' call' hc
  simp only [CacheState.setPhase] at hc
  rcases StepSystem.update_cases hc with ⟨-, hc⟩ | ⟨-, hc⟩
  · cases hc
    exact ⟨hs, hw, phase_later hq hf⟩
  · obtain ⟨h1, h2, h3⟩ := h.calls c' call' hc
    exact ⟨h1, h2, phase_later h3 hf⟩

/-- A new copy keeps the invariant when it is fresh enough. -/
theorem inv_setCopy {settings : CacheSettings} {d : ℚ} {s : CacheState} {provider : ℕ} {copy : Option CachedRuleSet}
    (h : StalenessInv settings d s)
    (hc : ∀ k, copy = some k → Fresh s (k.cachedAt - settings.redisTtl - 2 * d) k.ruleSet.version) :
    StalenessInv settings d (s.setCopy provider copy) := by
  refine ⟨h.keys, h.publishes, h.redis, ?_, fun c call hcall => ?_⟩
  · intro provider' k hk
    simp only [CacheState.setCopy] at hk
    rcases StepSystem.update_cases hk with ⟨-, hk⟩ | ⟨-, hk⟩
    · exact hc k hk
    · exact h.copies provider' k hk
  · obtain ⟨h1, h2, h3⟩ := h.calls c call hcall
    exact ⟨h1, h2, phase_later h3 fun _ _ hfresh => hfresh⟩

/-- A write to Redis keeps the invariant when what it writes was current less than a duration ago. -/
theorem inv_writeRedis {settings : CacheSettings} {d : ℚ} {s : CacheState} {ruleSet : RuleSet} {t : ℚ} (fails : Bool)
    (h : StalenessInv settings d s) (hf : Fresh s t ruleSet.version) (ht : s.now ≤ t + d) :
    StalenessInv settings d (s.writeRedis settings ruleSet fails) := by
  have hmono : ∀ t n, Fresh s t n → Fresh (s.writeRedis settings ruleSet fails) t n := by
    intro t n hfresh
    refine fresh_later hfresh (by simp) fun v hv => Or.inl ?_
    simpa using hv
  constructor
  · simpa using h.keys
  · intro p rs t hp
    rw [CacheState.writeRedis_publishes] at hp
    obtain ⟨h1, h2⟩ := h.publishes p rs t hp
    exact ⟨by simpa using h1, hmono _ _ h2⟩
  · intro value entry hr he
    rcases CacheState.writeRedis_redis _ _ _ _ hr with hr | ⟨-, rfl⟩
    · exact hmono _ _ (h.redis value entry hr he)
    · cases he
      refine hmono _ _ (fresh_earlier hf ?_)
      simp only
      linarith
  · intro provider copy hc
    rw [CacheState.writeRedis_copies] at hc
    exact hmono _ _ (h.copies provider copy hc)
  · intro c call hc
    rw [CacheState.writeRedis_calls] at hc
    obtain ⟨h1, h2, h3⟩ := h.calls c call hc
    refine ⟨by simpa using h1, fun hu => ?_, phase_later h3 hmono⟩
    simpa using h2 hu

/-- A publish that goes on to its end leaves no version to write. -/
theorem inv_ended {settings : CacheSettings} {d : ℚ} {s : CacheState} {p : ℕ} (h : StalenessInv settings d s) :
    StalenessInv settings d (s.setPublish p .ended) := by
  refine ⟨h.keys, ?_, h.redis, h.copies, fun c call hcall => ?_⟩
  · intro p' rs t hp
    simp only [CacheState.setPublish] at hp
    rcases StepSystem.update_cases hp with ⟨-, hp⟩ | ⟨-, hp⟩
    · cases hp
    · exact h.publishes p' rs t hp
  · obtain ⟨h1, h2, h3⟩ := h.calls c call hcall
    exact ⟨h1, h2, phase_later h3 fun _ _ hfresh => hfresh⟩

/-- A commit adds the newest version. -/
theorem inv_commit {settings : CacheSettings} {d : ℚ} (hd : 0 ≤ d) {s : CacheState} {p : ℕ} {record : RuleSetVersionRecord}
    {q : PublishPhase} (h : StalenessInv settings d s) (hk : record.ruleSetKey = settings.key)
    (hv : record.version = currentVersion s.rows settings.key + 1)
    (hq : q = .ended ∨ ∃ ruleSet : RuleSet, q = .committed ruleSet s.now ∧ ruleSet.version = record.version) :
    StalenessInv settings d ((s.addVersion record).setPublish p q) := by
  have hmem : ∀ v ∈ ((s.addVersion record).setPublish p q).versions, v ∈ s.versions ∨ v = ⟨record, s.now⟩ := by
    intro v hm
    rcases List.mem_append.mp hm with hm | hm
    · exact Or.inl hm
    · exact Or.inr (List.mem_singleton.mp hm)
  have hmono : ∀ t n, Fresh s t n → Fresh ((s.addVersion record).setPublish p q) t n := by
    intro t n hfresh
    refine fresh_later hfresh le_rfl fun v hm => ?_
    rcases hmem v hm with hm | rfl
    · exact Or.inl hm
    · exact Or.inr le_rfl
  constructor
  · intro v hm
    rcases hmem v hm with hm | rfl
    · exact h.keys v hm
    · exact hk
  · intro p' rs t hp
    simp only [CacheState.setPublish] at hp
    rcases StepSystem.update_cases hp with ⟨-, hp⟩ | ⟨-, hp⟩
    · rcases hq with rfl | ⟨ruleSet, rfl, hver⟩
      · cases hp
      · cases hp
        refine ⟨?_, le_rfl, fun v hm hlt => ?_⟩
        · change s.now ≤ s.now + d
          linarith
        · rcases hmem v hm with hm | rfl
          · have hle : v.record.version ≤ currentVersion s.rows v.record.ruleSetKey :=
              version_le_current (List.mem_map_of_mem hm)
            rw [h.keys v hm] at hle
            omega
          · exact absurd hlt (lt_irrefl _)
    · obtain ⟨h1, h2⟩ := h.publishes p' rs t hp
      exact ⟨h1, hmono _ _ h2⟩
  · intro value entry hr he
    exact hmono _ _ (h.redis value entry hr he)
  · intro provider copy hc
    exact hmono _ _ (h.copies provider copy hc)
  · intro c call hc
    obtain ⟨h1, h2, h3⟩ := h.calls c call hc
    exact ⟨h1, h2, phase_later h3 hmono⟩

/-- Time passes, as far as the durations allow. -/
theorem inv_tick {settings : CacheSettings} {d : ℚ} {s : CacheState} {duration : ℚ} (h : StalenessInv settings d s)
    (h0 : 0 ≤ duration) (hg : Timely d s (.tick duration)) :
    StalenessInv settings d { s with now := s.now + duration } := by
  obtain ⟨hcalls, hpublishes⟩ := hg duration rfl
  have hmono : ∀ t n, Fresh s t n → Fresh { s with now := s.now + duration } t n := fun t n hfresh =>
    fresh_later hfresh (le_add_of_nonneg_right h0) fun v hm => Or.inl hm
  refine ⟨h.keys, ?_, ?_, ?_, ?_⟩
  · intro p rs t hp
    exact ⟨hpublishes p rs t hp, hmono _ _ (h.publishes p rs t hp).2⟩
  · intro value entry hr he
    exact hmono _ _ (h.redis value entry hr he)
  · intro provider copy hc
    exact hmono _ _ (h.copies provider copy hc)
  · intro c call hc
    obtain ⟨h1, -, h3⟩ := h.calls c call hc
    exact ⟨h1.trans (le_add_of_nonneg_right h0), fun hu => hcalls c call hc hu, phase_later h3 hmono⟩

/-- Every timely step keeps the invariant. -/
theorem inv_step {settings : CacheSettings} {d : ℚ} (hd : 0 ≤ d) {s s' : CacheState} {e : CacheEvent}
    (h : StalenessInv settings d s) (hg : Timely d s e) (hs : Step settings s e s') : StalenessInv settings d s' := by
  have hL := settings.localTtl_ok
  have hR : (1 : ℚ) ≤ settings.redisTtl := by exact_mod_cast settings.redisTtl_ok
  cases hs with
  | hit c provider copy hc hk ha =>
    have hfresh := h.copies provider copy hk
    refine inv_setPhase h le_rfl nofun ⟨_, ?_, hfresh⟩
    simp only
    linarith
  | miss c provider hc => exact inv_setPhase h le_rfl (fun _ => le_add_of_nonneg_right hd) trivial
  | redisHit c fails call ruleSet value entry hc hp hr hl he hv =>
    obtain ⟨h1, h2, -⟩ := h.calls c call hc
    have hw := h2 (by rw [hp]; rfl)
    refine inv_setPhase h h1 (fun _ => hw) ⟨_, ?_, hv ▸ h.redis value entry hr he⟩
    linarith
  | redisMiss c fails call hc hp =>
    obtain ⟨h1, h2, -⟩ := h.calls c call hc
    exact inv_setPhase h h1 (fun _ => h2 (by rw [hp]; rfl)) trivial
  | selected c fails call ruleSet hc hp hm =>
    obtain ⟨h1, h2, -⟩ := h.calls c call hc
    refine inv_setPhase h h1 (fun _ => h2 (by rw [hp]; rfl)) ⟨h1, fun v hv _ => ?_⟩
    exact hm v.record (List.mem_map_of_mem hv) (h.keys v hv)
  | selectFailed c fails call q hc hp hq =>
    obtain ⟨h1, h2, -⟩ := h.calls c call hc
    refine inv_setPhase h h1 (fun _ => h2 (by rw [hp]; rfl)) ?_
    rcases hq with ⟨e, rfl⟩ | ⟨e, rfl⟩ <;> trivial
  | reject c call e hc hp =>
    obtain ⟨h1, -, -⟩ := h.calls c call hc
    exact inv_setPhase (inv_setCopy h nofun) h1 nofun trivial
  | set c fails call ruleSet hc hp =>
    obtain ⟨h1, h2, h3⟩ := h.calls c call hc
    have hw := h2 (by rw [hp]; rfl)
    rw [hp] at h3
    have hwritten := inv_writeRedis fails h h3 hw
    refine inv_setPhase hwritten (by simpa using h1) (fun _ => by simpa using hw) ⟨call.startedAt, ?_, ?_⟩
    · linarith
    · exact fresh_later h3 (by simp) fun v hv => Or.inl (by simpa using hv)
  | fill c call ruleSet hc hp =>
    obtain ⟨h1, h2, h3⟩ := h.calls c call hc
    have hw := h2 (by rw [hp]; rfl)
    rw [hp] at h3
    obtain ⟨t, ht, hfresh⟩ := h3
    refine inv_setPhase (inv_setCopy h ?_) h1 nofun ⟨t, by linarith, hfresh⟩
    rintro k ⟨⟩
    refine fresh_earlier hfresh ?_
    simp only
    linarith
  | cancel c call hc hp =>
    obtain ⟨h1, -, -⟩ := h.calls c call hc
    exact inv_setPhase h h1 nofun trivial
  | commit p record q hp hk hv hq => exact inv_commit hd h hk hv hq
  | overwrite p fails ruleSet t hp overwritten ho =>
    obtain ⟨h1, h2⟩ := h.publishes p ruleSet t hp
    obtain ⟨k1, k2, k3, k4, k5⟩ := inv_ended (p := p) (inv_writeRedis fails h h2 h1)
    refine ⟨k1, k2, k3, k4, fun c call hc => ?_⟩
    obtain ⟨c1, c2, c3⟩ := k5 c call hc
    exact ⟨c1, c2, phase_later c3 fun _ _ hfresh => hfresh⟩
  | abandon p ruleSet t hp => exact inv_ended h
  | tick duration h0 => exact inv_tick h h0 hg

theorem inv_empty (settings : CacheSettings) (d : ℚ) : StalenessInv settings d .empty := by
  refine ⟨?_, ?_, ?_, ?_, ?_⟩
  · intro v hv
    cases hv
  · intro p ruleSet t hp
    cases hp
  · intro value entry hr
    cases hr
  · intro provider copy hc
    cases hc
  · intro c call hc
    cases hc

theorem inv_reachable {sha : Sha256} {py : Interpreter} {settings : CacheSettings} {d : ℚ} (hd : 0 ≤ d) {s : CacheState}
    (h : (ruleSetCache sha py settings).ReachableWhen (Timely d) s) : StalenessInv settings d s := by
  refine StepSystem.ReachableWhen.invariant ?_ ?_ h
  · rintro s rfl
    exact inv_empty settings d
  · intro s e s' hi hg hs
    exact inv_step hd hi hg (step_of hs)

end StalenessAux

open StalenessAux

/-- Bounded staleness: while every call, and every publish after its commit, takes at most `d`, a call that starts at least
local TTL + Redis TTL + 2d after a version was committed does not return an older one. -/
theorem active_staleness_bounded {sha : Sha256} {py : Interpreter} {settings : CacheSettings} {d : ℚ} (hd : 0 ≤ d)
    {s : CacheState} (h : (ruleSetCache sha py settings).ReachableWhen (Timely d) s) {c : ℕ} {call : ActiveCall}
    {ruleSet : RuleSet} (hc : s.calls c = some call) (hr : call.phase = .returned ruleSet) {v : CommittedVersion}
    (hv : v ∈ s.versions) (ht : v.committedAt + (settings.localTtl + settings.redisTtl + 2 * d) ≤ call.startedAt) :
    v.record.version ≤ ruleSet.version := by
  obtain ⟨-, -, hphase⟩ := (inv_reachable hd h).calls c call hc
  rw [hr] at hphase
  obtain ⟨t, hlt, -, hfresh⟩ := hphase
  exact hfresh v hv (by linarith)

namespace CacheExample

open RoundTripExample StepSystem

/-- The default time to live of either cache. -/
def settings : CacheSettings := ⟨"fraud-default", 5, 60, by norm_num, by norm_num⟩

/-- A version of the rule set `amount > 10000`. -/
def ruleSet (version : ℕ) : RuleSet :=
  ⟨"fraud-default", version, whole, contentHash digest whole, "", "analyst", 0⟩

/-- Its row. -/
def record (version : ℕ) : RuleSetVersionRecord :=
  ⟨"fraud-default", version, (Jsonb.ofJson whole.modelDump).get rfl,
    contentHash digest whole, "", "analyst", 0⟩

theorem dryRun : ∃ a, evaluateRuleSet whole dryRunContext = .ok a :=
  @StoredAux.dryRun_of_parse interpreter (body (.int 10000)) _ rfl

/-- The row loads. -/
theorem record_loads (version : ℕ) : ruleSetFromRecord digest interpreter (record version) = .ok (ruleSet version) := by
  obtain ⟨a, ha⟩ := dryRun
  obtain ⟨raw, hraw, hload, -⟩ := StoredAux.load_stored digest interpreter
    (ruleSetLabel (record version).ruleSetKey (record version).version)
    (Option.some_get (x := Jsonb.ofJson whole.modelDump) rfl).symm ha
  unfold ruleSetFromRecord
  simp only [record] at hraw hload ⊢
  rw [hraw]
  simp only [hload whole_plain]
  rfl

/-- The entry written for it loads. -/
theorem entry_loads (version : ℕ) : deserialise digest interpreter (serialise (ruleSet version)) = .ok (some (ruleSet version)) := by
  obtain ⟨a, ha⟩ := dryRun
  have hv : modelValidate interpreter whole.modelDump = .ok whole := rfl
  have hl : loadStoredDefinition digest interpreter whole.modelDump
      (contentHash digest whole) (ruleSetLabel "fraud-default" version) =
      .ok whole := by
    have hh : definitionJsonHash digest whole.modelDump =
        contentHash digest whole := rfl
    unfold loadStoredDefinition
    simp only [ne_eq, hh, not_true_eq_false, if_false, hv, ha]
  unfold deserialise
  simp only [serialise, ruleSet, ne_eq, not_true_eq_false, if_false, hl]
  rfl

section

variable {sha : Sha256} {py : Interpreter} {row : RuleSetVersionRecord} {loaded : RuleSet}

/-- The only version is the latest. -/
theorem getLatestRuleSet_singleton {key : String} (hkey : row.ruleSetKey = key)
    (hload : ruleSetFromRecord sha py row = .ok loaded) : getLatestRuleSet sha py [row] key = .ok loaded := by
  simp [getLatestRuleSet, latestRecord, hkey, hload]

/-- A first version is committed, and its write to Redis fails. -/
theorem commit_unwritten (hkey : row.ruleSetKey = settings.key) (hversion : row.version = 1)
    (hload : ruleSetFromRecord sha py row = .ok loaded) :
    ∃ s, (ruleSetCache sha py settings).run .empty [.commit 0 row, .overwrite 0 true] = some s ∧ s.versions = [⟨row, 0⟩] ∧
      s.now = 0 ∧ s.redis = none ∧ s.copies = (fun _ => none) ∧ s.calls = (fun _ => none) ∧ s.overwritten = [] ∧
      (∀ p, s.publishes p = none ∨ s.publishes p = some .ended) ∧ s.publishes 1 = none := by
  have hc : row.ruleSetKey = settings.key ∧ row.version = currentVersion CacheState.empty.rows settings.key + 1 := ⟨hkey, hversion⟩
  simp only [run, ruleSetCache, cacheStep, CacheState.empty] at hc ⊢
  simp [hc, hload, CacheState.setPublish, CacheState.addVersion, CacheState.writeRedis]
  intro p
  by_cases hp : p = 0 <;> simp [hp]

/-- A call that finds nothing in Redis loads the version that is committed, and keeps it. -/
theorem load_committed (hkey : row.ruleSetKey = settings.key) (hload : ruleSetFromRecord sha py row = .ok loaded)
    {s : CacheState} (hv : s.versions = [⟨row, 0⟩]) (hr : s.redis = none) (hk : s.copies = fun _ => none)
    (hc : s.calls = fun _ => none) :
    ∃ s', (ruleSetCache sha py settings).run s
      [.start 0 0, .getRedis 0 false, .selectLatest 0 false, .setRedis 0 true, .fill 0] = some s' ∧
      s'.versions = s.versions ∧ s'.calls 0 = some ⟨0, s.now, .returned loaded⟩ := by
  have hlatest : getLatestRuleSet sha py [row] settings.key = .ok loaded := getLatestRuleSet_singleton hkey hload
  simp [run, ruleSetCache, cacheStep, hc, hk, startPhase, CacheState.setPhase, CacheState.readRedis, CacheState.payload, hr,
    CacheState.rows, hv, hlatest, CacheState.writeRedis, CacheState.setCopy]

end

/-- Only the clock is restricted. -/
theorem timely_of_ne {d : ℚ} {s : CacheState} {e : CacheEvent} (h : ∀ duration, e ≠ .tick duration) : Timely d s e :=
  fun duration he => absurd he (h duration)

end CacheExample

open CacheExample RoundTripExample in
/-- A call 67 seconds after the first version was committed. -/
theorem active_staleness_bounded_first :
    ∃ s result, (ruleSetCache digest interpreter settings).ReachableWhen (Timely 1) s ∧
      s.calls 0 = some ⟨0, 67, .returned result⟩ ∧ 1 ≤ result.version := by
  obtain ⟨s, hrun, hv, hnow, hr, hk, hc, -, hp, -⟩ := @commit_unwritten _ _ (record 1) _ rfl rfl (record_loads 1)
  have hs : (ruleSetCache digest interpreter settings).ReachableWhen (Timely 1) s := by
    refine (StepSystem.ReachableWhen.start rfl).run (StepSystem.meets_of_forall ?_ _) hrun
    intro e he t
    refine timely_of_ne ?_
    rintro duration rfl
    simp at he
  have htick : Timely 1 s (.tick 67) := by
    refine fun duration he => ⟨fun c call hcall => ?_, fun p ruleSet t hp' => ?_⟩
    · rw [hc] at hcall
      cases hcall
    · rcases hp p with hn | hn <;> rw [hn] at hp' <;> cases hp'
  have hs67 : (ruleSetCache digest interpreter settings).ReachableWhen (Timely 1) { s with now := s.now + 67 } :=
    .step hs htick (CacheAux.step_tick _ _ _ _ (by norm_num))
  obtain ⟨s', hrun', hv', hcall⟩ := load_committed (s := { s with now := s.now + 67 }) rfl (record_loads 1) hv hr hk hc
  have hs' : (ruleSetCache digest interpreter settings).ReachableWhen (Timely 1) s' := by
    refine hs67.run (StepSystem.meets_of_forall ?_ _) hrun'
    intro e he t
    refine timely_of_ne ?_
    rintro duration rfl
    simp at he
  have hstarted : s.now + 67 = 67 := by rw [hnow]; norm_num
  simp only [hstarted] at hcall
  refine ⟨s', ruleSet 1, hs', hcall, ?_⟩
  have hmem : (⟨record 1, 0⟩ : CommittedVersion) ∈ s'.versions := by
    rw [hv', hv]
    exact List.mem_singleton_self _
  exact active_staleness_bounded (by norm_num) hs' hcall rfl hmem (by norm_num [settings])

end FraudDetection
