import FraudDetection.Versions
import FraudDetection.Theorems.RoundTrip

/-!
# Publishing, all or nothing

A publish that raises should leave the table of versions as it was, and one that returns should have added one row. The only
step that can raise after the commit is the reload of the committed row, so the two can come apart in one way only: an accepted
definition that does not load back.
-/

namespace FraudDetection

/-- A publish that raised left the table as it was; one that returned added one row. -/
def AllOrNothing (rows : List RuleSetVersionRecord) (result : Except PublishError RuleSet × PublishState) : Prop :=
  match result.1 with
  | .error _ => result.2.rows = rows
  | .ok _ => ∃ record, result.2.rows = rows ++ [record]

/-- The call a publish makes for a definition. -/
def publishCall (sha : Sha256) (request : CreateVersionRequest) (d : RuleSetDefinition) : CreateCall :=
  ⟨request.key, d, contentHash sha d, request.description, request.subject, request.expectedCurrentVersion⟩

namespace PublishAux

/-- A maximum is at least what it started from, and at least every number it was taken over. -/
theorem le_foldl_max (ns : List ℕ) : ∀ (a : ℕ), a ≤ ns.foldl max a ∧ ∀ n ∈ ns, n ≤ ns.foldl max a := by
  induction ns with
  | nil => intro a; simp
  | cons m ns ih =>
    intro a
    obtain ⟨hstart, hall⟩ := ih (max a m)
    refine ⟨le_trans (le_max_left a m) hstart, fun n hn => ?_⟩
    rcases List.mem_cons.mp hn with rfl | hn
    · exact le_trans (le_max_right a n) hstart
    · exact hall n hn

/-- No row of a key has a version above the current one. -/
theorem version_le_current {rows : List RuleSetVersionRecord} {r : RuleSetVersionRecord} (h : r ∈ rows) :
    r.version ≤ currentVersion rows r.ruleSetKey := by
  refine (le_foldl_max _ 0).2 r.version (List.mem_map_of_mem ?_)
  simpa using h

/-- A new row has its call's key, the next version, and the stored form of its call's definition. -/
theorem newRecord_some {call : CreateCall} {current : ℕ} {now : Timestamp} {record : RuleSetVersionRecord}
    (h : newRecord call current now = some record) :
    record.ruleSetKey = call.key ∧ record.version = current + 1 ∧ record.contentHash = call.definitionHash ∧
      record.description = call.description ∧ record.createdBy = call.createdBy ∧
      Jsonb.ofJson call.definition.modelDump = some record.definition := by
  unfold newRecord at h
  split at h
  · obtain ⟨b, hb, rfl⟩ := Option.map_eq_some_iff.mp h
    exact ⟨rfl, rfl, rfl, rfl, rfl, hb⟩
  · cases h

/-- A call alone never finds its version taken. -/
theorem next_version_free {rows : List RuleSetVersionRecord} (call : CreateCall) {now : Timestamp}
    {record : RuleSetVersionRecord} (h : newRecord call (currentVersion rows call.key) now = some record) :
    ¬∃ r ∈ rows, r.ruleSetKey = record.ruleSetKey ∧ r.version = record.version := by
  rintro ⟨r, hr, hk, hv⟩
  obtain ⟨hkey, hversion, -⟩ := newRecord_some h
  have hle := version_le_current hr
  rw [hk, hkey] at hle
  omega

/-- What the reload of a new row comes to. -/
theorem reload_new (sha : Sha256) (py : Interpreter) {call : CreateCall} {current : ℕ} {now : Timestamp}
    {record : RuleSetVersionRecord} {a : Assessment} (h : newRecord call current now = some record)
    (hash : call.definitionHash = contentHash sha call.definition)
    (hrun : evaluateRuleSet call.definition dryRunContext = .ok a) :
    (PlainLiterals call.definition → ∃ ruleSet, ruleSetFromRecord sha py record = .ok ruleSet) ∧
      (¬PlainLiterals call.definition → ∃ e, ruleSetFromRecord sha py record = .error e) := by
  obtain ⟨-, -, hhash, -, -, hb⟩ := newRecord_some h
  obtain ⟨raw, hraw, hload, hchanged⟩ := StoredAux.load_stored sha py
    (ruleSetLabel record.ruleSetKey record.version) hb hrun
  rw [← hash, ← hhash] at hload hchanged
  unfold ruleSetFromRecord
  rw [hraw]
  refine ⟨fun hp => ?_, fun hp => ?_⟩
  · simp only [hload hp]
    exact ⟨_, rfl⟩
  · simp only [hchanged hp]
    exact ⟨_, rfl⟩

/-- What a publish comes to that is accepted and reaches its commit: it returns the new version when the literals of the
definition are plain, and otherwise raises; either way, its row is in the table. -/
theorem createVersion_of_commit {sha : Sha256} {py : Interpreter} {now : Timestamp} {s : PublishState}
    {request : CreateVersionRequest} {d : RuleSetDefinition} {record : RuleSetVersionRecord} (redisFails : Bool)
    (hp : parseRuleSetDefinition py request.definition = .ok d)
    (hg : guardConflict (publishCall sha request d) (currentVersion s.rows request.key) = none)
    (hr : newRecord (publishCall sha request d) (currentVersion s.rows request.key) now = some record) :
    (createVersion sha py now false redisFails s request).2.rows = s.rows ++ [record] ∧
      (PlainLiterals d → ∃ ruleSet, (createVersion sha py now false redisFails s request).1 = .ok ruleSet) ∧
      (¬PlainLiterals d → ∃ e, (createVersion sha py now false redisFails s request).1 = .error e) := by
  obtain ⟨a, ha⟩ := StoredAux.dryRun_of_parse hp
  obtain ⟨hplain, hchanged⟩ := reload_new sha py hr rfl ha
  have hfree := next_version_free (publishCall sha request d) hr
  unfold publishCall at hg hr
  unfold createVersion createRuleSetVersion
  simp only [hp, hg, hr, if_neg hfree, Bool.false_eq_true, if_false]
  by_cases hl : PlainLiterals d
  · obtain ⟨ruleSet, hok⟩ := hplain hl
    simp only [hok]
    exact ⟨trivial, fun _ => ⟨ruleSet, rfl⟩, fun h => absurd hl h⟩
  · obtain ⟨e, herr⟩ := hchanged hl
    simp only [herr]
    exact ⟨trivial, fun h => absurd h hl, fun _ => ⟨_, rfl⟩⟩

/-- Such a publish is all or nothing exactly when the literals of the definition are plain. -/
theorem allOrNothing_of_commit {sha : Sha256} {py : Interpreter} {now : Timestamp} {s : PublishState}
    {request : CreateVersionRequest} {d : RuleSetDefinition} {record : RuleSetVersionRecord} (redisFails : Bool)
    (hp : parseRuleSetDefinition py request.definition = .ok d)
    (hg : guardConflict (publishCall sha request d) (currentVersion s.rows request.key) = none)
    (hr : newRecord (publishCall sha request d) (currentVersion s.rows request.key) now = some record) :
    AllOrNothing s.rows (createVersion sha py now false redisFails s request) ↔ PlainLiterals d := by
  obtain ⟨hrows, hplain, hchanged⟩ := createVersion_of_commit redisFails hp hg hr
  unfold AllOrNothing
  rw [hrows]
  by_cases hl : PlainLiterals d
  · obtain ⟨ruleSet, hok⟩ := hplain hl
    rw [hok]
    exact iff_of_true ⟨record, rfl⟩ hl
  · obtain ⟨e, herr⟩ := hchanged hl
    rw [herr]
    refine iff_of_false (fun h => ?_) hl
    have := congrArg List.length (show s.rows ++ [record] = s.rows from h)
    simp at this

end PublishAux

open PublishAux

/-- A publish is all or nothing exactly when it stops before its commit (the body is refused, the database fails, the guard does
not hold, or PostgreSQL does not take the row) or the literals of its definition are plain. -/
theorem publish_allOrNothing_iff (sha : Sha256) (py : Interpreter) (now : Timestamp) (outage redisFails : Bool)
    (s : PublishState) (request : CreateVersionRequest) :
    AllOrNothing s.rows (createVersion sha py now outage redisFails s request) ↔
      ∀ d, parseRuleSetDefinition py request.definition = .ok d → outage = false →
        guardConflict (publishCall sha request d) (currentVersion s.rows request.key) = none →
        (newRecord (publishCall sha request d) (currentVersion s.rows request.key) now).isSome = true → PlainLiterals d := by
  cases hp : parseRuleSetDefinition py request.definition with
  | error e =>
    unfold createVersion
    simp only [hp, reduceCtorEq, false_implies, implies_true, iff_true]
    rfl
  | ok d =>
    simp only [Except.ok.injEq, forall_eq']
    cases outage with
    | true =>
      unfold createVersion createRuleSetVersion
      simp only [hp, if_true, Bool.true_eq_false, false_implies, iff_true]
      rfl
    | false =>
      cases hg : guardConflict (publishCall sha request d) (currentVersion s.rows request.key) with
      | some conflict =>
        unfold publishCall at hg
        unfold createVersion createRuleSetVersion
        simp only [hp, hg, Bool.false_eq_true, if_false, reduceCtorEq, false_implies, implies_true, iff_true]
        rfl
      | none =>
        cases hr : newRecord (publishCall sha request d) (currentVersion s.rows request.key) now with
        | none =>
          unfold publishCall at hg hr
          unfold createVersion createRuleSetVersion
          simp only [hp, hg, hr, Bool.false_eq_true, if_false, Option.isSome_none, false_implies, implies_true, iff_true]
          rfl
        | some record =>
          simpa using allOrNothing_of_commit redisFails hp hg hr

namespace PublishExample

open RoundTripExample

/-- A publish of the rule `amount > 1e16` as the first version of its key. -/
def request : CreateVersionRequest := ⟨"fraud-default", body tenQuadrillion, "A very large amount.", some 0, "analyst"⟩

/-- The literal of that rule is not plain. -/
theorem not_plain : ¬PlainLiterals (definition tenQuadrillion rfl) := by
  intro h
  have hplain := h _ List.mem_cons_self ⟨false, 1, 16, by decide, by decide⟩
    (by simp [amountAbove, tenQuadrillion, Json.leaves, Json.leavesOfEntries, Json.leavesOfItems])
  have := hplain.2
  norm_num at this

end PublishExample

open PublishExample RoundTripExample in
/-- Publishing the rule `amount > 1e16` on an empty table raises, and leaves its version in the table. -/
theorem publish_allOrNothing_false :
    (∃ e, (createVersion digest interpreter 0 false false ⟨[], none⟩ request).1 = .error e) ∧
      (createVersion digest interpreter 0 false false ⟨[], none⟩ request).2.rows ≠ [] ∧
      ¬AllOrNothing [] (createVersion digest interpreter 0 false false ⟨[], none⟩ request) := by
  have hp : parseRuleSetDefinition interpreter request.definition = .ok (definition tenQuadrillion rfl) := rfl
  have hg : guardConflict (publishCall digest request (definition tenQuadrillion rfl)) (currentVersion [] request.key) = none :=
    rfl
  obtain ⟨record, hr⟩ : ∃ record,
      newRecord (publishCall digest request (definition tenQuadrillion rfl)) (currentVersion [] request.key) 0 = some record :=
    ⟨_, rfl⟩
  have hl := not_plain
  generalize definition tenQuadrillion rfl = d at hp hg hr hl
  generalize request = r at hp hg hr ⊢
  obtain ⟨hrows, -, hraise⟩ := createVersion_of_commit (s := ⟨[], none⟩) false hp hg hr
  refine ⟨hraise hl, ?_, fun h => hl ?_⟩
  · rw [hrows]
    simp
  · exact (allOrNothing_of_commit (s := ⟨[], none⟩) false hp hg hr).mp h

end FraudDetection
