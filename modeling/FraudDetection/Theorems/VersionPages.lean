import FraudDetection.Theorems.Staleness
import FraudDetection.Theorems.Versions
import FraudDetection.VersionPages

/-!
# Version history pages are complete

The versions of a key are `1, ..., n`, so what is left of a walk is known from where it stands: below `before_version` stand exactly
the versions `1, ..., before_version - 1`. A full page therefore leaves some exactly when its last version is above 1, and no page is
empty. Versions published during a walk are above everything it still has to visit.
-/

namespace FraudDetection

/-- Every row of the key passes its integrity check. -/
def AllLoad (sha : Sha256) (py : Interpreter) (key : String) (rows : List RuleSetVersionRecord) : Prop :=
  ∀ record ∈ rows, record.ruleSetKey = key → ∃ ruleSet, ruleSetFromRecord sha py record = .ok ruleSet

namespace VersionPagesAux

open VersionsAux

variable {sha : Sha256} {py : Interpreter} {calls : ℕ → CreateCall} {key : String} {limit : ℤ}
  {rows : List RuleSetVersionRecord}

/-! ### The rows of a page -/

/-- The boundary a `before_version` stands for. -/
def boundary : Option ℕ → Keyset.Boundary ℕ
  | none => .start
  | some before => .after before

/-- The rows of a key that a walk still has to visit, newest first. -/
def remaining (rows : List RuleSetVersionRecord) (key : String) (before : Option ℕ) : List RuleSetVersionRecord :=
  Keyset.remaining (·.version) (fun _ => true) (boundary before) (rows.filter (·.ruleSetKey = key))

/-- How many versions those are, when there are `n`. -/
def remainingCount (n : ℕ) : Option ℕ → ℕ
  | none => n
  | some before => min n (before - 1)

theorem mem_remaining {before : Option ℕ} {record : RuleSetVersionRecord} :
    record ∈ remaining rows key before ↔
      record ∈ rows ∧ record.ruleSetKey = key ∧ ∀ b, before = some b → record.version < b := by
  unfold remaining
  rw [Keyset.mem_remaining, List.mem_filter, decide_eq_true_eq, and_assoc]
  refine and_congr_right fun _ => and_congr_right fun _ => ?_
  cases before with
  | none => simp [boundary, Keyset.Boundary.Passed]
  | some b => simp [boundary, Keyset.Boundary.Passed]

/-- Their versions are `m, ..., 1`. -/
theorem remaining_versions (h : GapFree rows) (before : Option ℕ) :
    (remaining rows key before).map (·.version) =
      (List.range' 1 (remainingCount (versionsOf rows key).length before)).reverse := by
  have hnodup : ((rows.filter (·.ruleSetKey = key)).map (·.version)).Nodup := by
    change (versionsOf rows key).Nodup
    rw [h key]
    exact List.nodup_range'
  have hdesc : ((remaining rows key before).map (·.version)).Pairwise fun v w => w < v := by
    rw [List.pairwise_map]
    exact Keyset.remaining_descending hnodup
  refine List.Pairwise.eq_of_mem_iff hdesc ?_ fun version => ?_
  · exact List.pairwise_reverse.mpr List.pairwise_lt_range'
  · have hmem : version ∈ versionsOf rows key ↔ 1 ≤ version ∧ version < 1 + (versionsOf rows key).length := by
      rw [h key, List.mem_range'_1, List.length_range']
    rw [List.mem_reverse, List.mem_range'_1]
    constructor
    · intro hv
      obtain ⟨record, hrecord, rfl⟩ := List.mem_map.mp hv
      obtain ⟨hin, hkey, hbelow⟩ := mem_remaining.mp hrecord
      obtain ⟨h1, h2⟩ := hmem.mp (mem_versionsOf.mpr ⟨record, hin, hkey, rfl⟩)
      cases before with
      | none => exact ⟨h1, h2⟩
      | some b =>
        have hlt := hbelow b rfl
        refine ⟨h1, ?_⟩
        rw [remainingCount]
        omega
    · rintro ⟨h1, h2⟩
      have hcount : remainingCount (versionsOf rows key).length before ≤ (versionsOf rows key).length := by
        cases before with
        | none => exact Nat.le_refl _
        | some b => exact Nat.min_le_left _ _
      obtain ⟨record, hin, hkey, rfl⟩ := mem_versionsOf.mp (hmem.mpr ⟨h1, by omega⟩)
      refine List.mem_map.mpr ⟨record, mem_remaining.mpr ⟨hin, hkey, ?_⟩, rfl⟩
      rintro b rfl
      rw [remainingCount] at h2
      omega

/-- The rows that `list_rule_set_versions` selects. -/
theorem selected_eq (rows : List RuleSetVersionRecord) (key : String) (before : Option ℕ) :
    (((rows.filter (·.ruleSetKey = key)).filter fun record =>
        (before.map Int.ofNat).all fun b => decide ((record.version : ℤ) < b)).mergeSort
      fun left right => decide (right.version ≤ left.version)) = remaining rows key before := by
  unfold remaining Keyset.remaining
  congr 1
  refine List.filter_congr fun record _ => ?_
  rw [Bool.eq_iff_iff, Bool.true_and, Bool.not_eq_true', decide_eq_false_iff_not]
  cases before with
  | none => simp [boundary, Keyset.Boundary.Passed]
  | some b => simp [boundary, Keyset.Boundary.Passed]

/-! ### Rows that load -/

/-- Rows that all load give as many rule sets, of their versions. -/
theorem mapM_load {records : List RuleSetVersionRecord}
    (h : ∀ record ∈ records, ∃ ruleSet, ruleSetFromRecord sha py record = .ok ruleSet) :
    ∃ ruleSets, records.mapM (ruleSetFromRecord sha py) = .ok ruleSets ∧
      ruleSets.map (·.version) = records.map (·.version) ∧
      ∀ ruleSet ∈ ruleSets, ∃ record ∈ records, ruleSetFromRecord sha py record = .ok ruleSet := by
  induction records with
  | nil => exact ⟨[], rfl, rfl, fun ruleSet hr => absurd hr List.not_mem_nil⟩
  | cons record records ih =>
    obtain ⟨ruleSet, hload⟩ := h record List.mem_cons_self
    obtain ⟨ruleSets, hrest, hversions, hfrom⟩ := ih fun r hr => h r (List.mem_cons_of_mem record hr)
    refine ⟨ruleSet :: ruleSets, ?_, ?_, ?_⟩
    · rw [List.mapM_cons, hload, hrest]
      rfl
    · rw [List.map_cons, List.map_cons, hversions, CacheAux.ruleSetFromRecord_version hload]
    · intro r hr
      rcases List.mem_cons.mp hr with rfl | hr
      · exact ⟨record, List.mem_cons_self, hload⟩
      · obtain ⟨source, hsource, hloads⟩ := hfrom r hr
        exact ⟨source, List.mem_cons_of_mem record hsource, hloads⟩

/-- The first `k` of the versions `m, ..., 1`. -/
theorem take_versions (m k : ℕ) : (List.range' 1 m).reverse.take k = (List.range' (m - min k m + 1) (min k m)).reverse := by
  rw [List.take_reverse, List.length_range', List.drop_range']
  congr 2
  · omega
  · omega

/-- The page that a request is answered with: its versions, and where it says to go on. -/
theorem listVersions_page (hlimit : 1 ≤ limit ∧ limit ≤ maxPageSize) (h : GapFree rows) {before : Option ℕ}
    (hbefore : ∀ b, before = some b → 2 ≤ b) {m : ℕ} (hm : remainingCount (versionsOf rows key).length before = m) (hpos : 1 ≤ m)
    (hload : ∀ record ∈ rows, record.ruleSetKey = key → record.version ≤ m →
      ∃ ruleSet, ruleSetFromRecord sha py record = .ok ruleSet) :
    ∃ data, listVersions sha py rows key limit (before.map Int.ofNat) =
        .ok ⟨data, limit, if limit.toNat < m then some (m - limit.toNat + 1) else none⟩ ∧
      data.map (·.version) = (List.range' (m - min limit.toNat m + 1) (min limit.toNat m)).reverse ∧
      ∀ ruleSet ∈ data, ∃ record ∈ rows, record.ruleSetKey = key ∧ record.version ≤ m ∧
        ruleSetFromRecord sha py record = .ok ruleSet := by
  have hversions := @remaining_versions key rows h before
  rw [hm] at hversions
  have hbelow : ∀ record ∈ (remaining rows key before).take limit.toNat,
      record ∈ rows ∧ record.ruleSetKey = key ∧ record.version ≤ m := by
    intro record hrecord
    have hin := List.mem_of_mem_take hrecord
    obtain ⟨hrows, hkey, -⟩ := mem_remaining.mp hin
    have hv : record.version ∈ (List.range' 1 m).reverse := by
      rw [← hversions]
      exact List.mem_map_of_mem hin
    rw [List.mem_reverse, List.mem_range'_1] at hv
    exact ⟨hrows, hkey, by omega⟩
  obtain ⟨data, hdata, hmap, hfrom⟩ := @mapM_load sha py ((remaining rows key before).take limit.toNat) fun record hrecord =>
    hload record (hbelow record hrecord).1 (hbelow record hrecord).2.1 (hbelow record hrecord).2.2
  have hmap : data.map (·.version) = (List.range' (m - min limit.toNat m + 1) (min limit.toNat m)).reverse := by
    rw [hmap, List.map_take, hversions, take_versions]
  have hlen : data.length = min limit.toNat m := by
    have := congrArg List.length hmap
    rwa [List.length_map, List.length_reverse, List.length_range'] at this
  have hlist : listRuleSetVersions sha py rows key limit (before.map Int.ofNat) = .ok data := by
    have hok : checkPageSize limit = none := if_pos hlimit
    have hnone : ¬∃ b ∈ before.map Int.ofNat, b < 1 := by
      rintro ⟨b, hb, hlt⟩
      obtain ⟨b', hb', rfl⟩ := Option.map_eq_some_iff.mp hb
      have := hbefore b' hb'
      rw [Int.ofNat_eq_natCast] at hlt
      omega
    unfold listRuleSetVersions
    rw [hok]
    simp only
    rw [if_neg hnone, selected_eq, hdata]
    rfl
  -- the last version of the page
  have hlast : nextBeforeVersion data limit = if limit.toNat < m then some (m - limit.toNat + 1) else none := by
    have hmin : 0 < min limit.toNat m := by omega
    have hne : data ≠ [] := List.ne_nil_of_length_pos (by omega)
    have hend : (data.getLast hne).version = m - min limit.toNat m + 1 := by
      have h1 : (data.map (·.version)).getLast? = some (m - min limit.toNat m + 1) := by
        rw [hmap, List.getLast?_reverse, List.head?_range', if_neg (by omega)]
      rw [List.getLast?_map, List.getLast?_eq_some_getLast hne, Option.map_some] at h1
      exact Option.some.inj h1
    unfold nextBeforeVersion
    rw [List.getLast?_eq_some_getLast hne]
    simp only
    rw [hend, hlen]
    by_cases hfull : limit.toNat < m
    · rw [if_pos hfull, if_pos (by omega), Nat.min_eq_left (by omega)]
    · rw [if_neg hfull, if_neg (by omega)]
  refine ⟨data, ?_, hmap, ?_⟩
  · have hvalid : ¬(limit < 1 ∨ maxPageSize < limit ∨ ∃ b ∈ before.map Int.ofNat, b < 2) := by
      rintro (h1 | h1 | ⟨b, hb, hlt⟩)
      · omega
      · omega
      · obtain ⟨b', hb', rfl⟩ := Option.map_eq_some_iff.mp hb
        have := hbefore b' hb'
        rw [Int.ofNat_eq_natCast] at hlt
        omega
    have hsome : ¬(data.isEmpty = true ∧ before.map Int.ofNat = none) := by
      rintro ⟨h0, -⟩
      rw [List.isEmpty_iff.mp h0, List.length_nil] at hlen
      omega
    unfold listVersions
    rw [if_neg hvalid, hlist]
    simp only
    rw [if_neg hsome, hlast]
  · intro ruleSet hr
    obtain ⟨record, hrecord, hloads⟩ := hfrom ruleSet hr
    exact ⟨record, (hbelow record hrecord).1, (hbelow record hrecord).2.1, (hbelow record hrecord).2.2, hloads⟩

/-- A key without versions is not found. -/
theorem listVersions_unknown (hlimit : 1 ≤ limit ∧ limit ≤ maxPageSize) (h : GapFree rows) (hn : (versionsOf rows key).length = 0) :
    listVersions sha py rows key limit none = .error ⟨404, "No rule set exists for key '" ++ key ++ "'"⟩ := by
  have hnone : remaining rows key none = [] := by
    have := @remaining_versions key rows h none
    rw [remainingCount, hn] at this
    exact List.map_eq_nil_iff.mp this
  have hlist : listRuleSetVersions sha py rows key limit none = .ok [] := by
    have hok : checkPageSize limit = none := if_pos hlimit
    have hselected := selected_eq rows key none
    rw [Option.map_none] at hselected
    unfold listRuleSetVersions
    rw [hok]
    simp only
    rw [if_neg (by simp), hselected, hnone, List.take_nil]
    rfl
  have hvalid : ¬(limit < 1 ∨ maxPageSize < limit ∨ ∃ b ∈ (none : Option ℤ), b < 2) := by
    rintro (h1 | h1 | ⟨b, hb, -⟩)
    · omega
    · omega
    · cases hb
  unfold listVersions
  rw [if_neg hvalid, hlist]
  simp only
  rw [if_pos (by simp)]

/-! ### A walk -/

/-- Rows that follow those of the first request are of newer versions. -/
theorem mem_first {first added : List RuleSetVersionRecord} (hfirst : GapFree first) (hall : GapFree (first ++ added))
    {record : RuleSetVersionRecord} (hrecord : record ∈ first ++ added) (hkey : record.ruleSetKey = key)
    (hle : record.version ≤ (versionsOf first key).length) : record ∈ first := by
  rcases List.mem_append.mp hrecord with hin | hin
  · exact hin
  · exfalso
    have happend : versionsOf (first ++ added) key = versionsOf first key ++ versionsOf added key := by
      unfold versionsOf
      rw [List.filter_append, List.map_append]
    have hnodup : (versionsOf first key ++ versionsOf added key).Nodup := by
      rw [← happend, hall key]
      exact List.nodup_range'
    have hold : record.version ∈ versionsOf first key := by
      have hpos : 1 ≤ record.version := by
        have hv : record.version ∈ versionsOf (first ++ added) key := mem_versionsOf.mpr ⟨record, hrecord, hkey, rfl⟩
        rw [hall key, List.mem_range'_1] at hv
        exact hv.1
      rw [hfirst key, List.mem_range'_1]
      omega
    have hnew : record.version ∈ versionsOf added key := mem_versionsOf.mpr ⟨record, hin, hkey, rfl⟩
    exact (List.nodup_append.mp hnodup).2.2 _ hold _ hnew rfl

/-- Where a walk is that has been given the versions `n, ..., k + 1`. -/
structure WalkedTo (sha : Sha256) (py : Interpreter) (key : String) (s : VersionWalkState) (n k : ℕ) : Prop where
  le : k ≤ n
  failure : s.failure = none
  versions : s.seen.map (·.version) = (List.range' (k + 1) (n - k)).reverse
  listed : ∀ ruleSet ∈ s.seen, ∃ record ∈ s.firstRows, record.ruleSetKey = key ∧ ruleSetFromRecord sha py record = .ok ruleSet
  pages : ∀ page ∈ s.pages, page.data ≠ [] ∧ ∀ before, page.nextBeforeVersion = some before → 2 ≤ before
  linked : ∀ init last, s.pages = init ++ [last] → s.request = last.nextBeforeVersion.map some
  count : s.pages.length ≤ n - k
  request : s.first = none ∧ k = n ∧ s.request = some none ∨
    s.first ≠ none ∧ s.request = if k = 0 then none else some (some (k + 1))

/-- What holds between two requests. -/
structure Inv (sha : Sha256) (py : Interpreter) (calls : ℕ → CreateCall) (key : String) (s : VersionWalkState) : Prop where
  publishes : VersionsInv calls s.publishes
  gapFree : GapFree s.firstRows
  added : ∃ added, s.publishes.rows = s.firstRows ++ added
  unmade : s.first = none → s.pages = [] ∧ s.failure = none ∧ s.request = some none
  unknown : s.first ≠ none → (versionsOf s.firstRows key).length = 0 →
    s.pages = [] ∧ s.failure = some ⟨404, "No rule set exists for key '" ++ key ++ "'"⟩ ∧ s.request = none
  walked : s.first ≠ none → 1 ≤ (versionsOf s.firstRows key).length → AllLoad sha py key s.firstRows →
    ∃ k, WalkedTo sha py key s (versionsOf s.firstRows key).length k

variable {s s' : VersionWalkState} {n k : ℕ}

theorem firstRows_eq (h : s.first = none) : s.firstRows = s.publishes.rows := by
  unfold VersionWalkState.firstRows
  rw [h]
  rfl

/-- Before the first request everything is still to come. -/
theorem Inv.position (h : Inv sha py calls key s) (hn : (versionsOf s.firstRows key).length = n) (hpos : 1 ≤ n)
    (hload : AllLoad sha py key s.firstRows) : ∃ k, WalkedTo sha py key s n k := by
  subst hn
  by_cases hfirst : s.first = none
  · obtain ⟨hpages, hfailure, hrequest⟩ := h.unmade hfirst
    have hseen : s.seen = [] := by
      unfold VersionWalkState.seen
      rw [hpages]
      rfl
    refine ⟨_, ⟨Nat.le_refl _, hfailure, ?_, ?_, ?_, ?_, ?_, .inl ⟨hfirst, rfl, hrequest⟩⟩⟩
    · rw [hseen, Nat.sub_self]
      rfl
    · rw [hseen]
      exact fun ruleSet hr => absurd hr List.not_mem_nil
    · rw [hpages]
      exact fun page hp => absurd hp List.not_mem_nil
    · intro init last heq
      rw [hpages] at heq
      exact absurd heq.symm (by simp)
    · rw [hpages]
      exact Nat.zero_le _
  · exact h.walked hfirst hpos hload

/-- The state after a page. -/
def afterPage (s : VersionWalkState) (page : RuleSetVersionPage) : VersionWalkState :=
  ⟨s.publishes, some s.firstRows, s.pages ++ [page], none, page.nextBeforeVersion.map some⟩

/-- A request that is answered with a page. -/
theorem fetch_page {before : Option ℕ} {page : RuleSetVersionPage} (hrequest : s.request = some before)
    (hpage : listVersions sha py s.publishes.rows key limit (before.map Int.ofNat) = .ok page) :
    (versionWalk sha py calls key limit).step s .fetch = some (afterPage s page) := by
  simp only [versionWalk, versionWalkStep, hrequest, hpage]
  rfl

/-- A request is answered with a page that takes the walk on. -/
theorem fetch_walked (hlimit : 1 ≤ limit ∧ limit ≤ maxPageSize) (h : Inv sha py calls key s)
    (hn : (versionsOf s.firstRows key).length = n) (hpos : 1 ≤ n) (hload : AllLoad sha py key s.firstRows)
    (hk : WalkedTo sha py key s n k) {before : Option ℕ} (hrequest : s.request = some before) :
    ∃ page k', k' < k ∧ listVersions sha py s.publishes.rows key limit (before.map Int.ofNat) = .ok page ∧
      WalkedTo sha py key (afterPage s page) n k' := by
  obtain ⟨added, hadded⟩ := h.added
  have hrows : GapFree s.publishes.rows := h.publishes.gapFree
  have hmore : n ≤ (versionsOf s.publishes.rows key).length := by
    rw [← hn, hadded]
    unfold versionsOf
    rw [List.filter_append, List.map_append, List.length_append]
    exact Nat.le_add_right _ _
  -- the request is for the versions up to `k`, and there are some
  have hat : 1 ≤ k ∧ (∀ b, before = some b → 2 ≤ b) ∧ remainingCount (versionsOf s.publishes.rows key).length before = k := by
    rcases hk.request with ⟨hfirst, rfl, hr⟩ | ⟨-, hr⟩
    · rw [hrequest] at hr
      obtain rfl : before = none := Option.some.inj hr
      refine ⟨hpos, fun b hb => absurd hb.symm (Option.some_ne_none b), ?_⟩
      rw [remainingCount, ← firstRows_eq hfirst, hn]
    · by_cases h0 : k = 0
      · rw [hrequest, if_pos h0] at hr
        cases hr
      · rw [hrequest, if_neg h0] at hr
        obtain rfl : before = some (k + 1) := Option.some.inj hr
        have := hk.le
        refine ⟨by omega, fun b hb => ?_, ?_⟩
        · cases hb
          omega
        · rw [remainingCount, Nat.add_sub_cancel]
          omega
  obtain ⟨hkpos, hbefore, hcount⟩ := hat
  have hold : ∀ record ∈ s.publishes.rows, record.ruleSetKey = key → record.version ≤ k → record ∈ s.firstRows := by
    intro record hrecord hkey hle
    have hkn := hk.le
    rw [hadded] at hrecord hrows
    exact mem_first h.gapFree hrows hrecord hkey (by omega)
  obtain ⟨data, hpage, hversions, hfrom⟩ := @listVersions_page sha py key limit _ hlimit hrows before hbefore k hcount hkpos
    fun record hrecord hkey hle => hload record (hold record hrecord hkey hle) hkey
  have hmin : 1 ≤ min limit.toNat k := by omega
  refine ⟨_, k - min limit.toNat k, by omega, hpage, ?_⟩
  have hseen : ∀ page, (afterPage s page).seen = s.seen ++ page.data := by
    intro page
    unfold VersionWalkState.seen afterPage
    rw [List.flatMap_append, List.flatMap_singleton]
  have hkn := hk.le
  constructor
  · omega
  · rfl
  · rw [hseen, List.map_append, hk.versions, hversions, ← List.reverse_append]
    congr 1
    have hsplit : k + 1 = k - min limit.toNat k + 1 + min limit.toNat k := by omega
    rw [hsplit, List.range'_append_1]
    congr 1
    omega
  · intro ruleSet hr
    rw [hseen] at hr
    rcases List.mem_append.mp hr with hr | hr
    · exact hk.listed ruleSet hr
    · obtain ⟨record, hrecord, hkey, hle, hloads⟩ := hfrom ruleSet hr
      exact ⟨record, hold record hrecord hkey hle, hkey, hloads⟩
  · intro page hp
    rcases List.mem_append.mp hp with hp | hp
    · exact hk.pages page hp
    · rw [List.mem_singleton.mp hp]
      refine ⟨?_, fun b hb => ?_⟩
      · intro h0
        have hlen := congrArg List.length hversions
        rw [List.length_map, List.length_reverse, List.length_range', show data = [] from h0, List.length_nil] at hlen
        omega
      · have hb : (if limit.toNat < k then some (k - limit.toNat + 1) else none) = some b := hb
        by_cases hfull : limit.toNat < k
        · rw [if_pos hfull] at hb
          cases hb
          omega
        · rw [if_neg hfull] at hb
          cases hb
  · intro init last heq
    obtain ⟨-, rfl⟩ := List.append_singleton_inj.mp heq
    rfl
  · have := hk.count
    unfold afterPage
    rw [List.length_append, List.length_singleton]
    omega
  · refine .inr ⟨Option.some_ne_none _, ?_⟩
    unfold afterPage
    by_cases hfull : limit.toNat < k
    · simp only [if_pos hfull]
      rw [if_neg (by omega), Nat.min_eq_left (by omega)]
      rfl
    · simp only [if_neg hfull]
      rw [if_pos (by omega)]
      rfl

theorem inv_start (h : (versionWalk sha py calls key limit).start s) : Inv sha py calls key s := by
  obtain ⟨hpublishes, hfirst, hpages, hfailure, hrequest⟩ := h
  have hinv : VersionsInv calls s.publishes := VersionsAux.inv_start hpublishes
  constructor
  · exact hinv
  · rw [firstRows_eq hfirst]
    exact hinv.gapFree
  · exact ⟨[], by rw [firstRows_eq hfirst, List.append_nil]⟩
  · intro _
    exact ⟨hpages, hfailure, hrequest⟩
  · intro hmade
    exact absurd hfirst hmade
  · intro hmade
    exact absurd hfirst hmade

theorem inv_publish {event : CreateEvent} {publishes : VersionsState} (h : Inv sha py calls key s)
    (hs : createStep sha py calls s.publishes event = some publishes) : Inv sha py calls key { s with publishes } := by
  have hinv : VersionsInv calls publishes := VersionsAux.inv_step h.publishes hs
  obtain ⟨rows, hrows, -⟩ := step_rows h.publishes hs
  by_cases hfirst : s.first = none
  · have hnow : VersionWalkState.firstRows { s with publishes } = publishes.rows := firstRows_eq hfirst
    constructor
    · exact hinv
    · rw [hnow]
      exact hinv.gapFree
    · exact ⟨[], by rw [hnow, List.append_nil]⟩
    · exact h.unmade
    · intro hmade
      exact absurd hfirst hmade
    · intro hmade
      exact absurd hfirst hmade
  · obtain ⟨first, hsome⟩ := Option.ne_none_iff_exists'.mp hfirst
    -- the rows of the first request stay what they were
    have hsame : VersionWalkState.firstRows { s with publishes } = s.firstRows := by
      unfold VersionWalkState.firstRows
      simp only [hsome, Option.getD_some]
    constructor
    · exact hinv
    · rw [hsame]
      exact h.gapFree
    · obtain ⟨added, hadded⟩ := h.added
      refine ⟨added ++ rows.map (·.record), ?_⟩
      rw [hsame, ← List.append_assoc, ← hadded]
      change (publishes.table.rows).map (·.record) = _
      rw [hrows, List.map_append]
      rfl
    · exact h.unmade
    · rw [hsame]
      exact h.unknown
    · rw [hsame]
      intro hmade hpos hload
      obtain ⟨k, hk⟩ := h.walked hmade hpos hload
      refine ⟨k, ⟨hk.le, hk.failure, hk.versions, ?_, hk.pages, hk.linked, hk.count, hk.request⟩⟩
      rw [hsame]
      exact hk.listed

/-- Whatever the response is, the first request is made. -/
theorem fetch_made (hs : (versionWalk sha py calls key limit).step s .fetch = some s') :
    s'.publishes = s.publishes ∧ s'.first = some s.firstRows := by
  cases hrequest : s.request with
  | none =>
    simp only [versionWalk, versionWalkStep, hrequest] at hs
    cases hs
  | some before =>
    simp only [versionWalk, versionWalkStep, hrequest] at hs
    split at hs
    · cases hs
      exact ⟨rfl, rfl⟩
    · cases hs
      exact ⟨rfl, rfl⟩

/-- A request leaves the rows at the first request what they are. -/
theorem fetch_firstRows (hs : (versionWalk sha py calls key limit).step s .fetch = some s') : s'.firstRows = s.firstRows := by
  unfold VersionWalkState.firstRows
  rw [(fetch_made hs).2]
  rfl

theorem inv_fetch (hlimit : 1 ≤ limit ∧ limit ≤ maxPageSize) (h : Inv sha py calls key s)
    (hs : (versionWalk sha py calls key limit).step s .fetch = some s') : Inv sha py calls key s' := by
  cases hrequest : s.request with
  | none =>
    simp only [versionWalk, versionWalkStep, hrequest] at hs
    cases hs
  | some before =>
    have hmade := fetch_made hs
    have hsame := fetch_firstRows hs
    have hsome : s'.first ≠ none := by
      rw [hmade.2]
      exact Option.some_ne_none _
    constructor
    · rw [hmade.1]
      exact h.publishes
    · rw [hsame]
      exact h.gapFree
    · rw [hsame, hmade.1]
      exact h.added
    · intro hnone
      exact absurd hnone hsome
    · intro _ h0
      rw [hsame] at h0
      by_cases hfirst : s.first = none
      · obtain ⟨hpages, -, hrequest'⟩ := h.unmade hfirst
        rw [hrequest] at hrequest'
        obtain rfl : before = none := Option.some.inj hrequest'
        rw [firstRows_eq hfirst] at h0
        have hresponse := @listVersions_unknown sha py key limit _ hlimit h.publishes.gapFree h0
        simp only [versionWalk, versionWalkStep, hrequest, Option.map_none, hresponse] at hs
        cases hs
        exact ⟨hpages, rfl, rfl⟩
      · have hended := (h.unknown hfirst h0).2.2
        rw [hrequest] at hended
        cases hended
    · intro _ hpos hload
      rw [hsame] at hpos hload ⊢
      obtain ⟨k, hk⟩ := h.position rfl hpos hload
      obtain ⟨page, k', -, hpage, hk'⟩ := fetch_walked hlimit h rfl hpos hload hk hrequest
      obtain rfl := Option.some.inj ((fetch_page hrequest hpage).symm.trans hs)
      exact ⟨k', hk'⟩

theorem inv_step (hlimit : 1 ≤ limit ∧ limit ≤ maxPageSize) {e : VersionWalkEvent} (h : Inv sha py calls key s)
    (hs : (versionWalk sha py calls key limit).step s e = some s') : Inv sha py calls key s' := by
  cases e with
  | publish event =>
    obtain ⟨publishes, hp, rfl⟩ := Option.map_eq_some_iff.mp hs
    exact inv_publish h hp
  | fetch => exact inv_fetch hlimit h hs

theorem inv_reachable (hlimit : 1 ≤ limit ∧ limit ≤ maxPageSize) (h : (versionWalk sha py calls key limit).Reachable s) :
    Inv sha py calls key s :=
  h.invariant (fun _ hstart => inv_start hstart) fun _ _ _ hi hs => inv_step hlimit hi hs

/-- Fetches alone end a walk: each takes it at least one version on. -/
theorem fetches_end (hlimit : 1 ≤ limit ∧ limit ≤ maxPageSize) (hpos : 1 ≤ n) {most : ℕ} :
    ∀ {s : VersionWalkState} {k : ℕ}, Inv sha py calls key s → (versionsOf s.firstRows key).length = n →
      AllLoad sha py key s.firstRows → WalkedTo sha py key s n k → k ≤ most →
      ∃ m ≤ k, ∃ s', (versionWalk sha py calls key limit).run s (List.replicate m .fetch) = some s' ∧ s'.request = none := by
  induction most with
  | zero =>
    intro s k h hn hload hk hle
    cases hrequest : s.request with
    | none => exact ⟨0, Nat.zero_le _, s, rfl, hrequest⟩
    | some before =>
      obtain ⟨page, k', hlt, -⟩ := fetch_walked hlimit h hn hpos hload hk hrequest
      omega
  | succ most ih =>
    intro s k h hn hload hk hle
    cases hrequest : s.request with
    | none => exact ⟨0, Nat.zero_le _, s, rfl, hrequest⟩
    | some before =>
      obtain ⟨page, k', hlt, hpage, hk'⟩ := fetch_walked hlimit h hn hpos hload hk hrequest
      have hstep : (versionWalk sha py calls key limit).step s .fetch = some (afterPage s page) := fetch_page hrequest hpage
      obtain ⟨m, hm, s', hrun, hend⟩ := ih (inv_step hlimit h hstep) hn hload hk' (by omega)
      refine ⟨m + 1, by omega, s', ?_, hend⟩
      rw [List.replicate_succ, StepSystem.run, hstep]
      exact hrun

end VersionPagesAux

/-- Following `next_before_version` from the first page visits every version that there was at the first request, once and newest
first, whatever is published meanwhile. Where there is at least one, every page has a version on it, every `next_before_version` is at
least 2 and is answered with a page, and the walk ends after at most as many pages as there are versions. A key without versions is
answered with a 404. -/
theorem version_pages_complete (sha : Sha256) (py : Interpreter) (calls : ℕ → CreateCall) (key : String) (limit : ℤ)
    (hlimit : 1 ≤ limit ∧ limit ≤ maxPageSize) (s : VersionWalkState) (h : (versionWalk sha py calls key limit).Reachable s) (n : ℕ)
    (hn : versionsOf s.firstRows key = List.range' 1 n) (hload : AllLoad sha py key s.firstRows) :
    (n = 0 → s.pages = [] ∧
      (s.first ≠ none → s.request = none ∧ s.failure = some ⟨404, "No rule set exists for key '" ++ key ++ "'"⟩)) ∧
    (1 ≤ n →
      s.failure = none ∧
      (∀ page ∈ s.pages, page.data ≠ [] ∧ ∀ before, page.nextBeforeVersion = some before → 2 ≤ before) ∧
      (∃ unseen, s.seen.map (·.version) ++ unseen = (List.range' 1 n).reverse) ∧
      (∀ ruleSet ∈ s.seen, ∃ record ∈ s.firstRows, record.ruleSetKey = key ∧ ruleSetFromRecord sha py record = .ok ruleSet) ∧
      (∀ init last, s.pages = init ++ [last] → s.request = last.nextBeforeVersion.map some) ∧
      (s.request = none → s.seen.map (·.version) = (List.range' 1 n).reverse) ∧
      (∀ before, s.request = some before →
        ∃ page, listVersions sha py s.publishes.rows key limit (before.map Int.ofNat) = .ok page) ∧
      s.pages.length ≤ n ∧
      ∃ m ≤ n, ∃ s', (versionWalk sha py calls key limit).run s (List.replicate m .fetch) = some s' ∧ s'.request = none) := by
  have hinv := VersionPagesAux.inv_reachable hlimit h
  have hcount : (versionsOf s.firstRows key).length = n := by rw [hn, List.length_range']
  constructor
  · rintro rfl
    by_cases hfirst : s.first = none
    · exact ⟨(hinv.unmade hfirst).1, fun hmade => absurd hfirst hmade⟩
    · obtain ⟨hpages, hfailure, hrequest⟩ := hinv.unknown hfirst hcount
      exact ⟨hpages, fun _ => ⟨hrequest, hfailure⟩⟩
  · intro hpos
    obtain ⟨k, hk⟩ := hinv.position hcount hpos hload
    have hkn := hk.le
    refine ⟨hk.failure, hk.pages, ?_, hk.listed, hk.linked, ?_, ?_, ?_, ?_⟩
    · refine ⟨(List.range' 1 k).reverse, ?_⟩
      rw [hk.versions, ← List.reverse_append, Nat.add_comm k 1, List.range'_append_1, Nat.add_sub_cancel' hkn]
    · intro hend
      have h0 : k = 0 := by
        rcases hk.request with ⟨-, -, hr⟩ | ⟨-, hr⟩
        · rw [hend] at hr
          cases hr
        · by_contra hne
          rw [hend, if_neg hne] at hr
          cases hr
      rw [hk.versions, h0]
      rfl
    · intro before hrequest
      obtain ⟨page, -, -, hpage, -⟩ := VersionPagesAux.fetch_walked hlimit hinv hcount hpos hload hk hrequest
      exact ⟨page, hpage⟩
    · have := hk.count
      omega
    · obtain ⟨m, hm, hend⟩ := VersionPagesAux.fetches_end hlimit hpos hinv hcount hload hk (Nat.le_refl k)
      exact ⟨m, by omega, hend⟩

namespace VersionPagesExample

open CacheExample RoundTripExample

/-- Calls that publish the rule set again. -/
def calls (_ : ℕ) : CreateCall := ⟨"fraud-default", whole, contentHash digest whole, "", "analyst", none⟩

/-- The first versions of the key. -/
def rows (n : ℕ) : List RuleSetVersionRecord := (List.range' 1 n).map record

/-- Three versions, before the first request. -/
def start : VersionWalkState where
  publishes := ⟨.ofRows [⟨record 1, none⟩, ⟨record 2, none⟩, ⟨record 3, none⟩], fun _ => .called⟩
  first := none
  pages := []
  failure := none
  request := some none

theorem rows_gapFree (n : ℕ) : GapFree (rows n) := by
  intro key
  by_cases h : "fraud-default" = key
  · subst h
    have hall : (rows n).filter (·.ruleSetKey = "fraud-default") = rows n := by
      refine List.filter_eq_self.mpr fun row hrow => ?_
      obtain ⟨version, -, rfl⟩ := List.mem_map.mp hrow
      rfl
    have hversions : versionsOf (rows n) "fraud-default" = List.range' 1 n := by
      unfold versionsOf
      rw [hall, rows, List.map_map]
      exact List.map_id _
    rw [hversions, List.length_range']
  · have hnone : versionsOf (rows n) key = [] := by
      unfold versionsOf
      rw [List.map_eq_nil_iff, List.filter_eq_nil_iff]
      intro row hrow
      obtain ⟨version, -, rfl⟩ := List.mem_map.mp hrow
      rw [decide_eq_true_eq]
      exact h
    rw [hnone]
    rfl

theorem rows_load (n : ℕ) : AllLoad digest interpreter "fraud-default" (rows n) := by
  intro row hrow _
  obtain ⟨version, -, rfl⟩ := List.mem_map.mp hrow
  exact ⟨_, record_loads version⟩

theorem start_reachable : (versionWalk digest interpreter calls "fraud-default" 2).Reachable start := by
  refine .start ⟨⟨fun _ => rfl, rfl, ?_, rows_gapFree 3⟩, rfl, rfl, rfl, rfl⟩
  simp [start, UniqueTable.ofRows]

/-- A call publishes version 4. -/
theorem published : ∃ publishes, (versions digest interpreter calls).run start.publishes [.select 0, .flush 0 0, .commit 0 true] =
    some publishes ∧ publishes.rows = rows 4 := by
  have hrows : ((versions digest interpreter calls).run start.publishes [.select 0, .flush 0 0, .commit 0 true]).map (·.rows) =
      some (rows 4) := rfl
  exact Option.map_eq_some_iff.mp hrows

/-- What calls do, they do during a walk. -/
theorem run_publishes {key : String} {limit : ℤ} {publishes : VersionsState} {events : List CreateEvent} :
    ∀ {s : VersionWalkState}, (versions digest interpreter calls).run s.publishes events = some publishes →
      (versionWalk digest interpreter calls key limit).run s (events.map .publish) = some { s with publishes } := by
  induction events with
  | nil =>
    intro s h
    cases h
    rfl
  | cons event events ih =>
    intro s h
    obtain ⟨next, hnext, hrest⟩ := StepSystem.run_cons h
    have hstep : (versionWalk digest interpreter calls key limit).step s (.publish event) = some { s with publishes := next } :=
      Option.map_eq_some_iff.mpr ⟨next, hnext, rfl⟩
    rw [List.map_cons, StepSystem.run, hstep]
    exact ih (s := { s with publishes := next }) hrest

/-- Requests leave the rows at the first request what they are. -/
theorem fetches_firstRows {key : String} {limit : ℤ} {m : ℕ} :
    ∀ {s s' : VersionWalkState}, (versionWalk digest interpreter calls key limit).run s (List.replicate m .fetch) = some s' →
      s'.firstRows = s.firstRows := by
  induction m with
  | zero =>
    intro s s' h
    cases h
    rfl
  | succ m ih =>
    intro s s' h
    rw [List.replicate_succ] at h
    obtain ⟨next, hnext, hrest⟩ := StepSystem.run_cons h
    rw [ih hrest, VersionPagesAux.fetch_firstRows hnext]

/-- The first request is answered with versions 3 and 2, and version 4 is published before the second. -/
theorem publishing : ∃ s, (versionWalk digest interpreter calls "fraud-default" 2).run start
      (.fetch :: [.select 0, .flush 0 0, .commit 0 true].map .publish) = some s ∧
    s.first = some (rows 3) ∧ s.publishes.rows = rows 4 ∧ s.seen.map (·.version) = [3, 2] ∧ s.request = some (some 2) := by
  obtain ⟨data, hpage, hversions, -⟩ := @VersionPagesAux.listVersions_page digest interpreter "fraud-default" 2 (rows 3)
    (by decide) (rows_gapFree 3) none (fun b hb => absurd hb.symm (Option.some_ne_none b)) 3 rfl (by decide)
    fun row hrow hkey _ => rows_load 3 row hrow hkey
  obtain ⟨publishes, hrun, hrows⟩ := published
  have hfetch : (versionWalk digest interpreter calls "fraud-default" 2).step start .fetch =
      some (VersionPagesAux.afterPage start ⟨data, 2, some 2⟩) := VersionPagesAux.fetch_page rfl hpage
  refine ⟨{ VersionPagesAux.afterPage start ⟨data, 2, some 2⟩ with publishes }, ?_, rfl, hrows, ?_, rfl⟩
  · rw [StepSystem.run, hfetch]
    exact run_publishes (s := VersionPagesAux.afterPage start ⟨data, 2, some 2⟩) hrun
  · change (List.flatMap _ [_]).map _ = _
    rw [List.flatMap_singleton, hversions]
    rfl

end VersionPagesExample

open VersionPagesExample CacheExample RoundTripExample in
/-- A walk over three versions, two a page, during which a fourth is published: the versions so far are the newest of the three, the
next request is answered with a page, and the walk ends with the three. -/
theorem version_pages_complete_publishing :
    ∃ s, (versionWalk digest interpreter calls "fraud-default" 2).run start
        (.fetch :: [.select 0, .flush 0 0, .commit 0 true].map .publish) = some s ∧
      s.seen.map (·.version) = [3, 2] ∧ versionsOf s.publishes.rows "fraud-default" = [1, 2, 3, 4] ∧
      (∃ page, listVersions digest interpreter s.publishes.rows "fraud-default" 2 (some 2) = .ok page) ∧
      ∃ m ≤ 3, ∃ s', (versionWalk digest interpreter calls "fraud-default" 2).run s (List.replicate m .fetch) = some s' ∧
        s'.request = none ∧ s'.seen.map (·.version) = [3, 2, 1] := by
  obtain ⟨s, hrun, hfirst, hrows, hseen, hrequest⟩ := publishing
  have hs : s.firstRows = rows 3 := by
    unfold VersionWalkState.firstRows
    rw [hfirst]
    rfl
  -- the theorem, wherever the walk of these three versions stands
  have hwalk {t : VersionWalkState} (ht : (versionWalk digest interpreter calls "fraud-default" 2).Reachable t)
      (h3 : t.firstRows = rows 3) :=
    (version_pages_complete digest interpreter calls "fraud-default" 2 (by decide) t ht 3 (by rw [h3]; rfl)
      (by rw [h3]; exact rows_load 3)).2 (by decide)
  have hreach := start_reachable.run hrun
  obtain ⟨-, -, -, -, -, -, hanswered, -, m, hm, s', hrest, hend⟩ := hwalk hreach hs
  obtain ⟨-, -, -, -, -, hwhole, -⟩ := hwalk (hreach.run hrest) ((fetches_firstRows hrest).trans hs)
  refine ⟨s, hrun, hseen, ?_, hanswered (some 2) hrequest, m, hm, s', hrest, hend, hwhole hend⟩
  rw [hrows]
  rfl

end FraudDetection
