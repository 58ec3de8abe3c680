import Mathlib.Data.List.Nodup

/-!
# A table with a unique key, under READ COMMITTED

Rows become visible when their transaction commits. An insert waits while an open transaction of another session holds the same
key, and conflicts when a visible row has it. So no two rows, visible or not, ever share a key.
-/

/-- The rows of a table, and the rows that open transactions have inserted, each with its session. -/
structure UniqueTable (ρ : Type _) where
  /-- The committed rows, in the order in which they were committed. -/
  rows : List ρ
  pending : List (ℕ × ρ)
  deriving Repr

/-- What an insert comes to. -/
inductive InsertResult (ρ : Type _) where
  /-- Another session has inserted this key and not yet committed or rolled back. -/
  | blocked
  | conflict
  | inserted (table : UniqueTable ρ)

namespace UniqueTable

variable {ρ κ : Type _} [DecidableEq κ] {key : ρ → κ} {t t' : UniqueTable ρ} {session session' : ℕ} {row : ρ}

/-- A table without open transactions. -/
def ofRows (rows : List ρ) : UniqueTable ρ := ⟨rows, []⟩

/-- The rows a session has inserted and not yet committed. -/
def own (t : UniqueTable ρ) (session : ℕ) : List ρ := (t.pending.filter (·.1 = session)).map (·.2)

/-- Insert a row. -/
def insert (key : ρ → κ) (t : UniqueTable ρ) (session : ℕ) (row : ρ) : InsertResult ρ :=
  if ∃ p ∈ t.pending, p.1 ≠ session ∧ key p.2 = key row then .blocked
  else if (∃ r ∈ t.rows, key r = key row) ∨ ∃ r ∈ t.own session, key r = key row then .conflict
  else .inserted ⟨t.rows, t.pending ++ [(session, row)]⟩

/-- Commit a session's transaction. -/
def commit (t : UniqueTable ρ) (session : ℕ) : UniqueTable ρ :=
  ⟨t.rows ++ t.own session, t.pending.filter (·.1 ≠ session)⟩

/-- Roll a session's transaction back. -/
def rollback (t : UniqueTable ρ) (session : ℕ) : UniqueTable ρ := ⟨t.rows, t.pending.filter (·.1 ≠ session)⟩

/-- No two rows share a key, whether they are committed or not. -/
def Keyed (key : ρ → κ) (t : UniqueTable ρ) : Prop := ((t.rows ++ t.pending.map (·.2)).map key).Nodup

omit [DecidableEq κ] in
theorem mem_own {r : ρ} : r ∈ t.own session ↔ (session, r) ∈ t.pending := by
  simp only [own, List.mem_map, List.mem_filter, decide_eq_true_eq]
  constructor
  · rintro ⟨⟨s, r'⟩, ⟨hm, rfl⟩, rfl⟩
    exact hm
  · intro h
    exact ⟨(session, r), ⟨h, rfl⟩, rfl⟩

/-- A row was inserted: no row has its key, and it is now its session's. -/
theorem insert_inserted (h : t.insert key session row = .inserted t') :
    (∀ r ∈ t.rows, key r ≠ key row) ∧ (∀ p ∈ t.pending, key p.2 ≠ key row) ∧
      t' = ⟨t.rows, t.pending ++ [(session, row)]⟩ := by
  unfold insert at h
  split at h
  · cases h
  rename_i hb
  split at h
  · cases h
  rename_i hc
  obtain ⟨hrows, hown⟩ := not_or.mp hc
  cases h
  refine ⟨fun r hr hk => hrows ⟨r, hr, hk⟩, ?_, rfl⟩
  intro p hp hk
  by_cases hs : p.1 = session
  · exact hown ⟨p.2, mem_own.mpr (hs ▸ hp), hk⟩
  · exact hb ⟨p, hp, hs, hk⟩

/-- An insert conflicted: a committed row, or one of the session's own, has the key. -/
theorem insert_conflict (h : t.insert key session row = .conflict) :
    (∃ r ∈ t.rows, key r = key row) ∨ ∃ r ∈ t.own session, key r = key row := by
  unfold insert at h
  split at h
  · cases h
  split at h
  · assumption
  · cases h

omit [DecidableEq κ] in
@[simp] theorem own_insert_self (t : UniqueTable ρ) (session : ℕ) (row : ρ) :
    (⟨t.rows, t.pending ++ [(session, row)]⟩ : UniqueTable ρ).own session = t.own session ++ [row] := by
  simp [own]

omit [DecidableEq κ] in
theorem own_insert_other (h : session' ≠ session) :
    (⟨t.rows, t.pending ++ [(session, row)]⟩ : UniqueTable ρ).own session' = t.own session' := by
  simp [own, h.symm]

omit [DecidableEq κ] in
@[simp] theorem own_commit_self (t : UniqueTable ρ) (session : ℕ) : (t.commit session).own session = [] := by
  simp [own, commit, List.filter_filter]

omit [DecidableEq κ] in
theorem own_commit_other (h : session' ≠ session) : (t.commit session).own session' = t.own session' := by
  simp only [own, commit, List.filter_filter]
  congr 1
  refine List.filter_congr fun p _ => ?_
  by_cases hp : p.1 = session'
  · simp [hp, h]
  · simp [hp]

omit [DecidableEq κ] in
@[simp] theorem own_rollback_self (t : UniqueTable ρ) (session : ℕ) : (t.rollback session).own session = [] :=
  own_commit_self t session

omit [DecidableEq κ] in
theorem own_rollback_other (h : session' ≠ session) : (t.rollback session).own session' = t.own session' :=
  own_commit_other h

omit [DecidableEq κ] in
theorem keyed_ofRows {rows : List ρ} (h : (rows.map key).Nodup) : (ofRows rows).Keyed key := by
  simpa [Keyed, ofRows] using h

theorem Keyed.insert (h : t.Keyed key) (hi : t.insert key session row = .inserted t') : t'.Keyed key := by
  obtain ⟨hrows, hpending, rfl⟩ := insert_inserted hi
  unfold Keyed at h ⊢
  simp only [List.map_append, List.map_cons, List.map_nil, ← List.append_assoc]
  rw [← List.map_append]
  refine List.nodup_append.mpr ⟨h, List.nodup_singleton _, ?_⟩
  intro k hk k' hk'
  rw [List.mem_singleton] at hk'
  subst hk'
  obtain ⟨r, hr, rfl⟩ := List.mem_map.mp hk
  rcases List.mem_append.mp hr with hr | hr
  · exact hrows r hr
  · obtain ⟨p, hp, rfl⟩ := List.mem_map.mp hr
    exact hpending p hp

omit [DecidableEq κ] in
theorem Keyed.commit (h : t.Keyed key) (session : ℕ) : (t.commit session).Keyed key := by
  unfold Keyed UniqueTable.commit own at *
  refine (List.Perm.nodup_iff (List.Perm.map key ?_)).mpr h
  rw [List.append_assoc, ← List.map_append]
  refine List.Perm.append_left _ (List.Perm.map _ ?_)
  simpa using List.filter_append_perm (fun p : ℕ × ρ => decide (p.1 = session)) t.pending

omit [DecidableEq κ] in
theorem Keyed.rollback (h : t.Keyed key) (session : ℕ) : (t.rollback session).Keyed key := by
  unfold Keyed UniqueTable.rollback at *
  refine List.Nodup.sublist ?_ h
  exact List.Sublist.map _ (List.Sublist.append_left (List.Sublist.map _ List.filter_sublist) _)

omit [DecidableEq κ] in
/-- Two committed rows of one key are the same row. -/
theorem Keyed.eq_of_key (h : t.Keyed key) {r r' : ρ} (hr : r ∈ t.rows) (hr' : r' ∈ t.rows) (hk : key r = key r') : r = r' := by
  unfold Keyed at h
  rw [List.map_append] at h
  exact List.inj_on_of_nodup_map (List.Nodup.of_append_left h) hr hr' hk

omit [DecidableEq κ] in
/-- A row that is not committed has a key of its own. -/
theorem Keyed.ne_of_own (h : t.Keyed key) {r r' : ρ} (hr : r ∈ t.rows) (hr' : r' ∈ t.own session) : key r ≠ key r' := by
  unfold Keyed at h
  rw [List.map_append, List.nodup_append] at h
  refine h.2.2 (key r) (List.mem_map_of_mem hr) (key r') ?_
  exact List.mem_map_of_mem (List.mem_map_of_mem (f := (·.2)) (mem_own.mp hr'))

omit [DecidableEq κ] in
/-- Two sessions hold rows of different keys. -/
theorem Keyed.ne_of_sessions (h : t.Keyed key) {r r' : ρ} (hr : r ∈ t.own session) (hr' : r' ∈ t.own session')
    (hs : session ≠ session') : key r ≠ key r' := by
  unfold Keyed at h
  rw [List.map_append, List.nodup_append] at h
  intro hk
  have hinj : ∀ p ∈ t.pending, ∀ q ∈ t.pending, key p.2 = key q.2 → p = q := by
    intro p hp q hq hpq
    have hnd := h.2.1
    rw [List.map_map] at hnd
    exact List.inj_on_of_nodup_map hnd hp hq hpq
  have := hinj _ (mem_own.mp hr) _ (mem_own.mp hr') hk
  exact hs (congrArg Prod.fst this)

end UniqueTable
