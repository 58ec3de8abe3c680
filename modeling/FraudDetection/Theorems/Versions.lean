import FraudDetection.Theorems.Publish

/-!
# The log of rule-set versions under concurrent calls

The version number of a call is read and inserted in separate statements, so writers race between them. What keeps the log free
of gaps is the unique constraint: an insert of a number that is not the next one finds it taken, and two open inserts of the
next one cannot coexist.
-/

namespace FraudDetection

/-- A row is what a call sent, at a version its guard allows. -/
def WrittenBy (call : CreateCall) (record : RuleSetVersionRecord) : Prop :=
  record.ruleSetKey = call.key ∧ Jsonb.ofJson call.definition.modelDump = some record.definition ∧
    record.contentHash = call.definitionHash ∧ record.description = call.description ∧ record.createdBy = call.createdBy ∧
    ∀ expected, call.expectedCurrentVersion = some expected → record.version = expected + 1

namespace CreatePhase

/-- The uncommitted row of a call in a phase. -/
def uncommitted (call : ℕ) : CreatePhase → List StoredVersion
  | .flushed record => [⟨record, some call⟩]
  | _ => []

/-- A call in this phase may have committed its row. -/
def MayHaveRow : CreatePhase → Prop
  | .committed _ | .returned _ | .raised .outage | .raised (.corrupt _) => True
  | _ => False

/-- A call in this phase has committed its row. -/
def HasRow : CreatePhase → Prop
  | .committed _ | .returned _ | .raised (.corrupt _) => True
  | _ => False

end CreatePhase

/-- What holds in every reachable state: how far each call is, and what the table holds of it. -/
structure VersionsInv (calls : ℕ → CreateCall) (s : VersionsState) : Prop where
  keyed : s.table.Keyed StoredVersion.key
  gapFree : GapFree s.rows
  selected : ∀ i current, s.phase i = .selected current →
    current ≤ (versionsOf s.rows (calls i).key).length ∧ guardConflict (calls i) current = none
  own : ∀ i, s.table.own i = (s.phase i).uncommitted i
  flushed : ∀ i record, s.phase i = .flushed record →
    record.version = (versionsOf s.rows (calls i).key).length + 1 ∧ WrittenBy (calls i) record
  stored : ∀ v ∈ s.table.rows, ∀ i, v.call = some i → WrittenBy (calls i) v.record ∧ (s.phase i).MayHaveRow
  one : (s.table.rows.filterMap (·.call)).Nodup
  hasRow : ∀ i, (s.phase i).HasRow → ∃ v ∈ s.table.rows, v.call = some i

namespace VersionsAux

open PublishAux

/-! ## Versions of a key -/

/-- The largest of `1, ..., n`. -/
theorem foldl_max_range' (n : ℕ) : (List.range' 1 n).foldl max 0 = n := by
  induction n with
  | zero => rfl
  | succ n ih =>
    rw [List.range'_1_concat, List.foldl_append, ih]
    simp only [List.foldl_cons, List.foldl_nil]
    omega

theorem currentVersion_eq {rows : List RuleSetVersionRecord} (h : GapFree rows) (key : String) :
    currentVersion rows key = (versionsOf rows key).length := by
  unfold currentVersion
  change (versionsOf rows key).foldl max 0 = _
  rw [h key]
  simp [foldl_max_range']

theorem mem_versionsOf {rows : List RuleSetVersionRecord} {key : String} {version : ℕ} :
    version ∈ versionsOf rows key ↔ ∃ r ∈ rows, r.ruleSetKey = key ∧ r.version = version := by
  simp [versionsOf, and_assoc]

theorem versionsOf_append (rows : List RuleSetVersionRecord) (record : RuleSetVersionRecord) (key : String) :
    versionsOf (rows ++ [record]) key =
      if record.ruleSetKey = key then versionsOf rows key ++ [record.version] else versionsOf rows key := by
  unfold versionsOf
  rw [List.filter_append, List.map_append]
  by_cases h : record.ruleSetKey = key <;> simp [h]

theorem versionsOf_length_append (rows : List RuleSetVersionRecord) (record : RuleSetVersionRecord) (key : String) :
    (versionsOf (rows ++ [record]) key).length =
      (versionsOf rows key).length + if record.ruleSetKey = key then 1 else 0 := by
  rw [versionsOf_append]
  split <;> simp

/-- The next version keeps the log free of gaps. -/
theorem gapFree_append {rows : List RuleSetVersionRecord} {record : RuleSetVersionRecord} (h : GapFree rows)
    (hv : record.version = (versionsOf rows record.ruleSetKey).length + 1) : GapFree (rows ++ [record]) := by
  intro key
  rw [versionsOf_length_append, versionsOf_append]
  by_cases hk : record.ruleSetKey = key
  · subst hk
    rw [if_pos rfl, if_pos rfl, List.range'_1_concat, ← h record.ruleSetKey, hv, Nat.add_comm 1]
  · rw [if_neg hk, if_neg hk, Nat.add_zero]
    exact h key

/-- A guard that holds fixes the current version. -/
theorem guard_holds {call : CreateCall} {current : ℕ} (h : guardConflict call current = none) :
    ∀ expected, call.expectedCurrentVersion = some expected → current = expected := by
  intro expected he
  unfold guardConflict at h
  rw [he] at h
  simp only at h
  by_contra hne
  rw [if_pos hne] at h
  cases h

/-! ## The steps of a call -/

/-- What a step does: one call goes on to a phase, and the table is unchanged but for the row it inserts, commits or rolls
back. -/
theorem createStep_cases {sha : Sha256} {py : Interpreter} {calls : ℕ → CreateCall} {s s' : VersionsState} {e : CreateEvent}
    (h : createStep sha py calls s e = some s') :
    (∃ i c, s.phase i = .called ∧ s' = s.setPhase i (.raised (.conflict c))) ∨
    (∃ i, s.phase i = .called ∧ guardConflict (calls i) (currentVersion s.rows (calls i).key) = none ∧
      s' = s.setPhase i (.selected (currentVersion s.rows (calls i).key))) ∨
    (∃ i current, s.phase i = .selected current ∧
      (s' = s.setPhase i (.raised .refused) ∨ ∃ c, s' = s.setPhase i (.raised (.conflict c)))) ∨
    (∃ i current now record table, s.phase i = .selected current ∧ newRecord (calls i) current now = some record ∧
      s.table.insert StoredVersion.key i ⟨record, some i⟩ = .inserted table ∧
      s' = (⟨table, s.phase⟩ : VersionsState).setPhase i (.flushed record)) ∨
    (∃ i record q, s.phase i = .flushed record ∧ (q = .committed record ∨ q = .raised .outage) ∧
      s' = (⟨s.table.commit i, s.phase⟩ : VersionsState).setPhase i q) ∨
    (∃ i record q, s.phase i = .committed record ∧
      ((∃ r, q = .returned r ∧ ruleSetFromRecord sha py record = .ok r) ∨
        ∃ e, q = .raised (.corrupt e) ∧ ruleSetFromRecord sha py record = .error e) ∧
      s' = s.setPhase i q) ∨
    (∃ i, ¬(s.phase i).MayHaveRow ∧ s' = (⟨s.table.rollback i, s.phase⟩ : VersionsState).setPhase i (.raised .outage)) := by
  cases e with
  | select i =>
    simp only [createStep] at h
    split at h
    · rename_i hp
      split at h
      · rename_i c hc
        cases h
        exact Or.inl ⟨i, c, hp, rfl⟩
      · rename_i hg
        cases h
        exact Or.inr (Or.inl ⟨i, hp, hg, rfl⟩)
    · cases h
  | flush i now =>
    simp only [createStep] at h
    split at h
    · rename_i current hp
      split at h
      · cases h
        exact Or.inr (Or.inr (Or.inl ⟨i, current, hp, Or.inl rfl⟩))
      · rename_i record hr
        split at h
        · cases h
        · cases h
          exact Or.inr (Or.inr (Or.inl ⟨i, current, hp, Or.inr ⟨_, rfl⟩⟩))
        · rename_i table ht
          cases h
          exact Or.inr (Or.inr (Or.inr (Or.inl ⟨i, current, now, record, table, hp, hr, ht, rfl⟩)))
    · cases h
  | commit i acknowledged =>
    simp only [createStep] at h
    split at h
    · rename_i record hp
      cases h
      refine Or.inr (Or.inr (Or.inr (Or.inr (Or.inl ⟨i, record, _, hp, ?_, rfl⟩))))
      cases acknowledged
      · exact Or.inr rfl
      · exact Or.inl rfl
    · cases h
  | reload i =>
    simp only [createStep] at h
    split at h
    · rename_i record hp
      split at h
      · rename_i r hr
        cases h
        exact Or.inr (Or.inr (Or.inr (Or.inr (Or.inr (Or.inl ⟨i, record, _, hp, Or.inl ⟨r, rfl, hr⟩, rfl⟩)))))
      · rename_i e he
        cases h
        exact Or.inr (Or.inr (Or.inr (Or.inr (Or.inr (Or.inl ⟨i, record, _, hp, Or.inr ⟨e, rfl, he⟩, rfl⟩)))))
    · cases h
  | fail i =>
    refine Or.inr (Or.inr (Or.inr (Or.inr (Or.inr (Or.inr ⟨i, ?_⟩)))))
    simp only [createStep] at h
    split at h
    · rename_i hp
      exact ⟨by rw [hp]; exact id, (Option.some.inj h).symm⟩
    · rename_i current hp
      exact ⟨by rw [hp]; exact id, (Option.some.inj h).symm⟩
    · rename_i record hp
      exact ⟨by rw [hp]; exact id, (Option.some.inj h).symm⟩
    · cases h

/-! ## The invariant -/

/-- A step that commits nothing keeps the invariant when the phase it leads to agrees with the call's open row. -/
theorem inv_rows_same {calls : ℕ → CreateCall} {s : VersionsState} {i : ℕ} {q : CreatePhase}
    {table : UniqueTable StoredVersion} (h : VersionsInv calls s) (hrows : table.rows = s.table.rows)
    (hkeyed : table.Keyed StoredVersion.key) (hother : ∀ j, j ≠ i → table.own j = s.table.own j)
    (hown : table.own i = q.uncommitted i)
    (hsel : ∀ current, q = .selected current →
      current ≤ (versionsOf s.rows (calls i).key).length ∧ guardConflict (calls i) current = none)
    (hfl : ∀ record, q = .flushed record →
      record.version = (versionsOf s.rows (calls i).key).length + 1 ∧ WrittenBy (calls i) record)
    (hmay : (s.phase i).MayHaveRow → q.MayHaveRow) (hhas : q.HasRow → (s.phase i).HasRow) :
    VersionsInv calls ((⟨table, s.phase⟩ : VersionsState).setPhase i q) := by
  have hr : ((⟨table, s.phase⟩ : VersionsState).setPhase i q).rows = s.rows := by
    unfold VersionsState.rows VersionsState.setPhase
    rw [hrows]
  have hself : ((⟨table, s.phase⟩ : VersionsState).setPhase i q).phase i = q := Function.update_self ..
  have hne : ∀ j, j ≠ i → ((⟨table, s.phase⟩ : VersionsState).setPhase i q).phase j = s.phase j := fun j hj =>
    Function.update_of_ne hj ..
  constructor
  · exact hkeyed
  · rw [hr]
    exact h.gapFree
  · intro j current hj
    rw [hr]
    by_cases hji : j = i
    · subst hji
      exact hsel current (hself ▸ hj)
    · exact h.selected j current (hne j hji ▸ hj)
  · intro j
    by_cases hji : j = i
    · subst hji
      rw [hself]
      exact hown
    · rw [hne j hji]
      exact (hother j hji).trans (h.own j)
  · intro j record hj
    rw [hr]
    by_cases hji : j = i
    · subst hji
      exact hfl record (hself ▸ hj)
    · exact h.flushed j record (hne j hji ▸ hj)
  · intro v hv j hj
    change v ∈ table.rows at hv
    rw [hrows] at hv
    obtain ⟨hw, hm⟩ := h.stored v hv j hj
    refine ⟨hw, ?_⟩
    by_cases hji : j = i
    · subst hji
      rw [hself]
      exact hmay hm
    · rw [hne j hji]
      exact hm
  · change (table.rows.filterMap (·.call)).Nodup
    rw [hrows]
    exact h.one
  · intro j hj
    change ∃ v ∈ table.rows, v.call = some j
    rw [hrows]
    by_cases hji : j = i
    · subst hji
      exact h.hasRow j (hhas (hself ▸ hj))
    · exact h.hasRow j (hne j hji ▸ hj)

/-- A step that leaves the table as it is. -/
theorem inv_setPhase {calls : ℕ → CreateCall} {s : VersionsState} {i : ℕ} {q : CreatePhase} (h : VersionsInv calls s)
    (hp : (s.phase i).uncommitted i = []) (hq : q.uncommitted i = [])
    (hsel : ∀ current, q = .selected current →
      current ≤ (versionsOf s.rows (calls i).key).length ∧ guardConflict (calls i) current = none)
    (hmay : (s.phase i).MayHaveRow → q.MayHaveRow) (hhas : q.HasRow → (s.phase i).HasRow) :
    VersionsInv calls (s.setPhase i q) := by
  refine inv_rows_same h rfl h.keyed (fun _ _ => rfl) ((h.own i).trans (hp.trans hq.symm)) hsel ?_ hmay hhas
  rintro record rfl
  cases hq

/-- The insert of a version that nobody holds is the insert of the next version. -/
theorem inserted_next {calls : ℕ → CreateCall} {s : VersionsState} {i current : ℕ} {now : Timestamp}
    {record : RuleSetVersionRecord} {table : UniqueTable StoredVersion} (h : VersionsInv calls s)
    (hp : s.phase i = .selected current) (hr : newRecord (calls i) current now = some record)
    (ht : s.table.insert StoredVersion.key i ⟨record, some i⟩ = .inserted table) :
    record.version = (versionsOf s.rows (calls i).key).length + 1 ∧ WrittenBy (calls i) record := by
  obtain ⟨hle, hg⟩ := h.selected i current hp
  obtain ⟨hkey, hversion, hhash, hdesc, hby, hdef⟩ := newRecord_some hr
  obtain ⟨hfree, -, -⟩ := UniqueTable.insert_inserted ht
  have hge : (versionsOf s.rows (calls i).key).length ≤ current := by
    by_contra hlt
    have hm : current + 1 ∈ versionsOf s.rows (calls i).key := by
      rw [h.gapFree (calls i).key, List.mem_range'_1]
      omega
    obtain ⟨r, hrm, hrk, hrv⟩ := mem_versionsOf.mp hm
    obtain ⟨v, hv, rfl⟩ := List.mem_map.mp hrm
    refine hfree v hv ?_
    unfold StoredVersion.key
    rw [hrk, hrv, hkey, hversion]
  refine ⟨by omega, hkey, hdef, hhash, hdesc, hby, fun expected he => ?_⟩
  rw [hversion, guard_holds hg expected he]

/-- A commit appends the next version of its key, and no other open call holds it. -/
theorem inv_commit {calls : ℕ → CreateCall} {s : VersionsState} {i : ℕ} {record : RuleSetVersionRecord} {q : CreatePhase}
    (h : VersionsInv calls s) (hp : s.phase i = .flushed record) (hq : q = .committed record ∨ q = .raised .outage) :
    VersionsInv calls ((⟨s.table.commit i, s.phase⟩ : VersionsState).setPhase i q) := by
  obtain ⟨hversion, hwritten⟩ := h.flushed i record hp
  have hkey := hwritten.1
  have hown : s.table.own i = [⟨record, some i⟩] := by rw [h.own i, hp]; rfl
  have hrows : (s.table.commit i).rows = s.table.rows ++ [⟨record, some i⟩] := by
    unfold UniqueTable.commit
    rw [hown]
  have hr : ((⟨s.table.commit i, s.phase⟩ : VersionsState).setPhase i q).rows = s.rows ++ [record] := by
    unfold VersionsState.rows VersionsState.setPhase
    rw [hrows, List.map_append]
    rfl
  have hself : ((⟨s.table.commit i, s.phase⟩ : VersionsState).setPhase i q).phase i = q := Function.update_self ..
  have hne : ∀ j, j ≠ i → ((⟨s.table.commit i, s.phase⟩ : VersionsState).setPhase i q).phase j = s.phase j := fun j hj =>
    Function.update_of_ne hj ..
  -- a call that has not committed has no row yet
  have hfresh : ∀ v ∈ s.table.rows, v.call ≠ some i := by
    intro v hv hc
    have hm := (h.stored v hv i hc).2
    rw [hp] at hm
    exact hm
  constructor
  · exact h.keyed.commit i
  · rw [hr]
    exact gapFree_append h.gapFree (by rw [hversion, hkey])
  · intro j current hj
    have hji : j ≠ i := by
      rintro rfl
      rw [hself] at hj
      rcases hq with rfl | rfl <;> cases hj
    obtain ⟨hle, hg⟩ := h.selected j current (hne j hji ▸ hj)
    rw [hr, versionsOf_length_append]
    exact ⟨by omega, hg⟩
  · intro j
    by_cases hji : j = i
    · subst hji
      rw [hself]
      refine (UniqueTable.own_commit_self _ _).trans ?_
      rcases hq with rfl | rfl <;> rfl
    · rw [hne j hji]
      exact (UniqueTable.own_commit_other hji).trans (h.own j)
  · intro j record' hj
    have hji : j ≠ i := by
      rintro rfl
      rw [hself] at hj
      rcases hq with rfl | rfl <;> cases hj
    have hj' : s.phase j = .flushed record' := hne j hji ▸ hj
    obtain ⟨hversion', hwritten'⟩ := h.flushed j record' hj'
    have hown' : s.table.own j = [⟨record', some j⟩] := by rw [h.own j, hj']; rfl
    have hdistinct : record.ruleSetKey ≠ (calls j).key := by
      intro hk
      have hmine : (⟨record, some i⟩ : StoredVersion) ∈ s.table.own i := by
        rw [hown]
        exact List.mem_singleton_self _
      have htheirs : (⟨record', some j⟩ : StoredVersion) ∈ s.table.own j := by
        rw [hown']
        exact List.mem_singleton_self _
      refine h.keyed.ne_of_sessions hmine htheirs (Ne.symm hji) ?_
      unfold StoredVersion.key
      have hk' : record.ruleSetKey = record'.ruleSetKey := hk.trans hwritten'.1.symm
      simp only [Prod.mk.injEq]
      exact ⟨hk', by rw [hversion, hversion', ← hkey, hk]⟩
    rw [hr, versionsOf_length_append, if_neg hdistinct]
    exact ⟨hversion', hwritten'⟩
  · intro v hv j hj
    change v ∈ (s.table.commit i).rows at hv
    rw [hrows] at hv
    rcases List.mem_append.mp hv with hv | hv
    · have hji : j ≠ i := by
        rintro hji
        exact hfresh v hv (hji ▸ hj)
      obtain ⟨hw, hm⟩ := h.stored v hv j hj
      rw [hne j hji]
      exact ⟨hw, hm⟩
    · rw [List.mem_singleton] at hv
      subst hv
      cases hj
      rw [hself]
      refine ⟨hwritten, ?_⟩
      rcases hq with rfl | rfl <;> trivial
  · change ((s.table.commit i).rows.filterMap (·.call)).Nodup
    rw [hrows, List.filterMap_append]
    refine List.nodup_append.mpr ⟨h.one, by simp, ?_⟩
    intro a ha b hb hab
    obtain ⟨v, hv, hc⟩ := List.mem_filterMap.mp ha
    simp only [List.filterMap_cons, List.filterMap_nil, List.mem_singleton] at hb
    exact hfresh v hv (by rw [hc, hab, hb])
  · intro j hj
    change ∃ v ∈ (s.table.commit i).rows, v.call = some j
    rw [hrows]
    by_cases hji : j = i
    · subst hji
      exact ⟨⟨record, some j⟩, by simp, rfl⟩
    · obtain ⟨v, hv, hc⟩ := h.hasRow j (hne j hji ▸ hj)
      exact ⟨v, List.mem_append.mpr (Or.inl hv), hc⟩

/-- Every step keeps the invariant. -/
theorem inv_step {sha : Sha256} {py : Interpreter} {calls : ℕ → CreateCall} {s s' : VersionsState} {e : CreateEvent}
    (h : VersionsInv calls s) (hs : createStep sha py calls s e = some s') : VersionsInv calls s' := by
  rcases createStep_cases hs with ⟨i, c, hp, rfl⟩ | ⟨i, hp, hg, rfl⟩ | ⟨i, current, hp, hs'⟩ |
    ⟨i, current, now, record, table, hp, hr, ht, rfl⟩ | ⟨i, record, q, hp, hq, rfl⟩ | ⟨i, record, q, hp, hq, rfl⟩ | ⟨i, hn, rfl⟩
  · exact inv_setPhase h (by rw [hp]; rfl) rfl (fun _ hq => by cases hq) (by rw [hp]; exact False.elim) False.elim
  · refine inv_setPhase h (by rw [hp]; rfl) rfl (fun current hq => ?_) (by rw [hp]; exact False.elim) False.elim
    cases hq
    exact ⟨(currentVersion_eq h.gapFree _).le, hg⟩
  · rcases hs' with rfl | ⟨c, rfl⟩ <;>
      exact inv_setPhase h (by rw [hp]; rfl) rfl (fun _ hq => by cases hq) (by rw [hp]; exact False.elim) False.elim
  · have hnext := inserted_next h hp hr ht
    have hown : s.table.own i = [] := by rw [h.own i, hp]; rfl
    obtain ⟨-, -, rfl⟩ := UniqueTable.insert_inserted ht
    refine inv_rows_same h rfl (h.keyed.insert ht) (fun j hj => UniqueTable.own_insert_other hj) ?_ (fun _ hq => by cases hq)
      (fun record' hq => ?_) (by rw [hp]; exact False.elim) False.elim
    · rw [UniqueTable.own_insert_self, hown]
      rfl
    · cases hq
      exact hnext
  · exact inv_commit h hp hq
  · have hmay : q.MayHaveRow := by rcases hq with ⟨r, rfl, -⟩ | ⟨e, rfl, -⟩ <;> trivial
    refine inv_setPhase h (by rw [hp]; rfl) ?_ (fun _ hq' => ?_) (fun _ => hmay) (fun _ => by rw [hp]; trivial)
    · rcases hq with ⟨r, rfl, -⟩ | ⟨e, rfl, -⟩ <;> rfl
    · subst hq'
      rcases hq with ⟨r, hr, -⟩ | ⟨e, he, -⟩
      · cases hr
      · cases he
  · refine inv_rows_same h rfl (h.keyed.rollback i) (fun j hj => UniqueTable.own_rollback_other hj)
      (UniqueTable.own_rollback_self _ _) (fun _ hq => by cases hq) (fun _ hq => by cases hq) (fun hm => absurd hm hn) False.elim

/-- A log without gaps holds no version twice. -/
theorem nodup_of_gapFree {rows : List StoredVersion} (h : GapFree (rows.map (·.record))) :
    (rows.map StoredVersion.key).Nodup := by
  have hnd : ∀ key, (versionsOf (rows.map (·.record)) key).Nodup := by
    intro key
    rw [h key]
    exact List.nodup_range'
  clear h
  induction rows with
  | nil => exact List.nodup_nil
  | cons v rows ih =>
    rw [List.map_cons, List.nodup_cons]
    refine ⟨fun hm => ?_, ih fun key => (hnd key).sublist ?_⟩
    · obtain ⟨w, hw, hk⟩ := List.mem_map.mp hm
      unfold StoredVersion.key at hk
      simp only [Prod.mk.injEq] at hk
      have hv := hnd v.record.ruleSetKey
      rw [List.map_cons] at hv
      unfold versionsOf at hv
      rw [List.filter_cons_of_pos (by simp), List.map_cons, List.nodup_cons] at hv
      refine hv.1 (mem_versionsOf.mpr ⟨w.record, List.mem_map_of_mem hw, hk.1, hk.2⟩)
    · unfold versionsOf
      exact List.Sublist.map _ (List.Sublist.filter _ (List.sublist_cons_self _ _))

theorem inv_start {sha : Sha256} {py : Interpreter} {calls : ℕ → CreateCall} {s : VersionsState}
    (h : (versions sha py calls).start s) : VersionsInv calls s := by
  obtain ⟨hp, hpend, hcalls, hgap⟩ := h
  have hown : ∀ i, s.table.own i = [] := by
    intro i
    unfold UniqueTable.own
    rw [hpend]
    rfl
  constructor
  · unfold UniqueTable.Keyed
    rw [hpend]
    simpa using nodup_of_gapFree hgap
  · exact hgap
  · intro i current hi
    rw [hp i] at hi
    cases hi
  · intro i
    rw [hown i, hp i]
    rfl
  · intro i record hi
    rw [hp i] at hi
    cases hi
  · intro v hv i hi
    rw [hcalls v hv] at hi
    cases hi
  · have hnil : s.table.rows.filterMap (·.call) = [] := List.filterMap_eq_nil_iff.mpr hcalls
    rw [hnil]
    exact List.nodup_nil
  · intro i hi
    rw [hp i] at hi
    exact hi.elim

theorem inv_reachable {sha : Sha256} {py : Interpreter} {calls : ℕ → CreateCall} {s : VersionsState}
    (h : (versions sha py calls).Reachable s) : VersionsInv calls s :=
  h.invariant (fun _ hs => inv_start hs) fun _ _ _ hi hs => inv_step hi hs

/-- A step appends at most the row of one call. -/
theorem step_rows {sha : Sha256} {py : Interpreter} {calls : ℕ → CreateCall} {s s' : VersionsState} {e : CreateEvent}
    (h : VersionsInv calls s) (hs : createStep sha py calls s e = some s') :
    ∃ added, s'.table.rows = s.table.rows ++ added ∧ ∀ v ∈ added, ∃ i, v.call = some i := by
  have same : ∀ {t : VersionsState}, t.table.rows = s.table.rows →
      ∃ added, t.table.rows = s.table.rows ++ added ∧ ∀ v ∈ added, ∃ i, v.call = some i := fun ht =>
    ⟨[], by rw [ht, List.append_nil], by simp⟩
  rcases createStep_cases hs with ⟨i, c, hp, rfl⟩ | ⟨i, hp, hg, rfl⟩ | ⟨i, current, hp, hs'⟩ |
    ⟨i, current, now, record, table, hp, hr, ht, rfl⟩ | ⟨i, record, q, hp, hq, rfl⟩ | ⟨i, record, q, hp, hq, rfl⟩ | ⟨i, hn, rfl⟩
  · exact same rfl
  · exact same rfl
  · rcases hs' with rfl | ⟨c, rfl⟩ <;> exact same rfl
  · obtain ⟨-, -, rfl⟩ := UniqueTable.insert_inserted ht
    exact same rfl
  · refine ⟨[⟨record, some i⟩], ?_, by simp⟩
    change s.table.rows ++ s.table.own i = _
    rw [h.own i, hp]
    rfl
  · exact same rfl
  · exact same rfl

/-- An insert that has to wait waits for the open row of another call. -/
theorem blocked_by {s : VersionsState} {calls : ℕ → CreateCall} {i : ℕ} {row : StoredVersion} (h : VersionsInv calls s)
    (hb : s.table.insert StoredVersion.key i row = .blocked) : ∃ j record, j ≠ i ∧ s.phase j = .flushed record := by
  unfold UniqueTable.insert at hb
  split at hb
  · rename_i hex
    obtain ⟨⟨j, v⟩, hm, hji, -⟩ := hex
    have hv : v ∈ (s.phase j).uncommitted j := h.own j ▸ UniqueTable.mem_own.mpr hm
    cases hp : s.phase j with
    | flushed record => exact ⟨j, record, hji, hp⟩
    | _ => rw [hp] at hv; simp [CreatePhase.uncommitted] at hv
  · split at hb <;> cases hb

end VersionsAux

open VersionsAux

/-- What the log of versions is worth in a state: the versions of every key are `1, ..., n`; the row of a call is what the call
sent, at the version after the one its guard expects; each call has at most one row, and of the calls of a key with one
expectation at most one has; a call that ended without a row raised a conflict, unless the database failed it or refused its
row; a call that raised a conflict has no row; and from there on rows are only added, by calls. -/
structure VersionLog (sha : Sha256) (py : Interpreter) (calls : ℕ → CreateCall) (s : VersionsState) : Prop where
  gapFree : GapFree s.rows
  content : ∀ v ∈ s.table.rows, ∀ i, v.call = some i → WrittenBy (calls i) v.record
  one : (s.table.rows.filterMap (·.call)).Nodup
  guarded : ∀ v ∈ s.table.rows, ∀ w ∈ s.table.rows, ∀ i j expected, v.call = some i → w.call = some j →
    (calls i).key = (calls j).key → (calls i).expectedCurrentVersion = some expected →
    (calls j).expectedCurrentVersion = some expected → i = j
  ended : ∀ i error, s.phase i = .raised error → (∀ v ∈ s.table.rows, v.call ≠ some i) →
    error = .outage ∨ error = .refused ∨ ∃ conflict, error = .conflict conflict
  conflict : ∀ i conflict, s.phase i = .raised (.conflict conflict) → ∀ v ∈ s.table.rows, v.call ≠ some i
  appendOnly : ∀ events s', (versions sha py calls).run s events = some s' →
    ∃ added, s'.table.rows = s.table.rows ++ added ∧ ∀ v ∈ added, ∃ i, v.call = some i

/-- Rule-set versions are a gap-free append-only log with a sound optimistic guard, in every reachable state of any concurrent
calls. -/
theorem versions_log {sha : Sha256} {py : Interpreter} {calls : ℕ → CreateCall} {s : VersionsState}
    (h : (versions sha py calls).Reachable s) : VersionLog sha py calls s := by
  have hi := inv_reachable h
  constructor
  · exact hi.gapFree
  · intro v hv i hc
    exact (hi.stored v hv i hc).1
  · exact hi.one
  · intro v hv w hw i j expected hvc hwc hk he he'
    obtain ⟨hkey, -, -, -, -, hver⟩ := (hi.stored v hv i hvc).1
    obtain ⟨hkey', -, -, -, -, hver'⟩ := (hi.stored w hw j hwc).1
    have heq : v = w := by
      refine hi.keyed.eq_of_key hv hw ?_
      unfold StoredVersion.key
      rw [hkey, hkey', hk, hver expected he, hver' expected he']
    rw [heq, hwc] at hvc
    exact (Option.some.inj hvc).symm
  · intro i error hp hno
    cases error with
    | conflict c => exact Or.inr (Or.inr ⟨c, rfl⟩)
    | outage => exact Or.inl rfl
    | refused => exact Or.inr (Or.inl rfl)
    | corrupt e =>
      obtain ⟨v, hv, hc⟩ := hi.hasRow i (by rw [hp]; trivial)
      exact absurd hc (hno v hv)
  · intro i c hp v hv hc
    have hm := (hi.stored v hv i hc).2
    rw [hp] at hm
    exact hm
  · intro events s' hr
    refine StepSystem.Reachable.run_rel
      (R := fun s s' : VersionsState => ∃ added, s'.table.rows = s.table.rows ++ added ∧ ∀ v ∈ added, ∃ i, v.call = some i)
      (fun s => ⟨[], (List.append_nil _).symm, by simp⟩) ?_ (fun s e s' hs hstep => step_rows (inv_reachable hs) hstep) h hr
    rintro s t u ⟨xs, hxs, hx⟩ ⟨ys, hys, hy⟩
    refine ⟨xs ++ ys, by rw [hys, hxs, List.append_assoc], fun v hv => ?_⟩
    rcases List.mem_append.mp hv with hv | hv
    · exact hx v hv
    · exact hy v hv

namespace VersionsExample

open RoundTripExample

/-- Two calls for one key, of which the second sends a description that PostgreSQL refuses. -/
def calls (i : ℕ) : CreateCall :=
  if i = 0 then ⟨"fraud-default", whole, "hash", "First version.", "analyst", some 0⟩
  else ⟨"fraud-default", whole, "hash", "\x00", "analyst", none⟩

/-- An empty table, before any call. -/
def empty : VersionsState := ⟨.ofRows [], fun _ => .called⟩

theorem empty_start : (versions digest interpreter calls).start empty :=
  ⟨fun _ => rfl, rfl, by simp [empty, UniqueTable.ofRows], fun _ => rfl⟩

end VersionsExample

open VersionsExample RoundTripExample in
/-- The first version of a key. -/
theorem versions_log_first :
    ∃ s, (versions digest interpreter calls).run empty [.select 0, .flush 0 0, .commit 0 true] = some s ∧
      s.rows.length = 1 ∧ VersionLog digest interpreter calls s := by
  have hl : ((versions digest interpreter calls).run empty [.select 0, .flush 0 0, .commit 0 true]).map (·.rows.length) =
      some 1 := rfl
  obtain ⟨s, hr, hs⟩ := Option.map_eq_some_iff.mp hl
  exact ⟨s, hr, hs, versions_log (StepSystem.Reachable.run (.start empty_start) hr)⟩

open VersionsExample RoundTripExample in
/-- A call can end without a version and without a conflict while the database works: PostgreSQL refuses a description with
U+0000. -/
theorem versions_conflict_only_false :
    (versions digest interpreter calls).start empty ∧
      ∃ s, (versions digest interpreter calls).run empty [.select 1, .flush 1 0] = some s ∧
        s.phase 1 = .raised .refused ∧ s.rows = [] :=
  ⟨empty_start, _, rfl, rfl, rfl⟩

/-- No call waits for ever on its own account: one that has not ended can take its next step, or waits for the open row of another
call, which can commit. -/
theorem versions_progress {sha : Sha256} {py : Interpreter} {calls : ℕ → CreateCall} {s : VersionsState}
    (h : (versions sha py calls).Reachable s) (i : ℕ) (now : Timestamp) :
    (∃ r, s.phase i = .returned r) ∨ (∃ e, s.phase i = .raised e) ∨
      ∃ e, (createStep sha py calls s e).isSome ∧ ∀ j, e ≠ .fail j := by
  cases hp : s.phase i with
  | called =>
    refine Or.inr (Or.inr ⟨.select i, ?_⟩)
    simp only [createStep, hp]
    cases guardConflict (calls i) (currentVersion s.rows (calls i).key) <;> simp
  | selected current =>
    refine Or.inr (Or.inr ?_)
    cases hr : newRecord (calls i) current now with
    | none =>
      refine ⟨.flush i now, ?_, by simp⟩
      simp only [createStep, hp, hr]
      rfl
    | some record =>
      cases ht : s.table.insert StoredVersion.key i ⟨record, some i⟩ with
      | blocked =>
        obtain ⟨j, record', -, hj⟩ := blocked_by (inv_reachable h) ht
        refine ⟨.commit j true, ?_, by simp⟩
        simp only [createStep, hj]
        rfl
      | conflict =>
        refine ⟨.flush i now, ?_, by simp⟩
        simp only [createStep, hp, hr, ht]
        rfl
      | inserted table =>
        refine ⟨.flush i now, ?_, by simp⟩
        simp only [createStep, hp, hr, ht]
        rfl
  | flushed record =>
    refine Or.inr (Or.inr ⟨.commit i true, ?_, by simp⟩)
    simp only [createStep, hp]
    rfl
  | committed record =>
    refine Or.inr (Or.inr ⟨.reload i, ?_⟩)
    simp only [createStep, hp]
    cases ruleSetFromRecord sha py record <;> simp
  | returned r => exact Or.inl ⟨r, rfl⟩
  | raised e => exact Or.inr (Or.inl ⟨e, rfl⟩)

end FraudDetection
