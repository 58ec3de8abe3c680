import FraudDetection.DefaultRules
import FraudDetection.Lemmas.Api
import FraudDetection.Serving
import FraudDetection.Theorems.Versions

/-!
# The steps of the service

What each step of `serviceStep` does, said once; the rows of versions that calls have inserted; and, for every request, where it is and
what has become of its call.
-/

namespace FraudDetection

namespace ServingAux

open ApiAux

/-! ## The rows of versions -/

/-- What holds of the rows that calls insert: their column can hold them, and a call that has gone on has its row in the table, as it
was loaded. -/
structure RowsInv (sha : Sha256) (py : Interpreter) (s : VersionsState) : Prop where
  held : ∀ v ∈ s.table.rows, (v.record.version : ℤ) ≤ Api.maxInteger
  flushed : ∀ i record, s.phase i = .flushed record → (record.version : ℤ) ≤ Api.maxInteger
  committed : ∀ i record, s.phase i = .committed record → ⟨record, some i⟩ ∈ s.table.rows
  returned : ∀ i ruleSet, s.phase i = .returned ruleSet →
    ∃ record, ⟨record, some i⟩ ∈ s.table.rows ∧ ruleSetFromRecord sha py record = .ok ruleSet
  corrupt : ∀ i error, s.phase i = .raised (.corrupt error) →
    ∃ record, ⟨record, some i⟩ ∈ s.table.rows ∧ ruleSetFromRecord sha py record = .error error

/-- A row that was made is one its column can hold. -/
theorem newRecord_held {call : CreateCall} {current : ℕ} {now : Timestamp} {record : RuleSetVersionRecord}
    (h : newRecord call current now = some record) : (record.version : ℤ) ≤ Api.maxInteger := by
  unfold newRecord at h
  split at h
  · rename_i hfits
    obtain ⟨b, -, rfl⟩ := Option.map_eq_some_iff.mp h
    have hle : current + 1 ≤ 2147483647 := hfits.2.2.2
    change ((current + 1 : ℕ) : ℤ) ≤ 2147483647
    omega
  · cases h

section Rows

variable {sha : Sha256} {py : Interpreter} {calls : ℕ → CreateCall} {s s' : VersionsState}

/-- A call goes on to a phase in which it has no more of a row than before. -/
theorem rows_setPhase {i : ℕ} {q : CreatePhase} {table : UniqueTable StoredVersion} (h : RowsInv sha py s)
    (hrows : table.rows = s.table.rows) (hf : ∀ record, q = .flushed record → (record.version : ℤ) ≤ Api.maxInteger)
    (hc : ∀ record, q ≠ .committed record)
    (hr : ∀ ruleSet, q = .returned ruleSet →
      ∃ record, ⟨record, some i⟩ ∈ s.table.rows ∧ ruleSetFromRecord sha py record = .ok ruleSet)
    (hx : ∀ error, q = .raised (.corrupt error) →
      ∃ record, ⟨record, some i⟩ ∈ s.table.rows ∧ ruleSetFromRecord sha py record = .error error) :
    RowsInv sha py ((⟨table, s.phase⟩ : VersionsState).setPhase i q) where
  held v hv := h.held v (hrows ▸ hv)
  flushed j record hj := by
    rcases StepSystem.update_cases hj with ⟨-, hq⟩ | ⟨-, hj⟩
    · exact hf record hq
    · exact h.flushed j record hj
  committed j record hj := by
    rcases StepSystem.update_cases hj with ⟨-, hq⟩ | ⟨-, hj⟩
    · exact absurd hq (hc record)
    · exact hrows.symm ▸ h.committed j record hj
  returned j ruleSet hj := by
    change ∃ record, _ ∈ table.rows ∧ _
    rw [hrows]
    rcases StepSystem.update_cases hj with ⟨rfl, hq⟩ | ⟨-, hj⟩
    · exact hr ruleSet hq
    · exact h.returned j ruleSet hj
  corrupt j error hj := by
    change ∃ record, _ ∈ table.rows ∧ _
    rw [hrows]
    rcases StepSystem.update_cases hj with ⟨rfl, hq⟩ | ⟨-, hj⟩
    · exact hx error hq
    · exact h.corrupt j error hj

/-- A call goes on to a phase that has no row. -/
theorem rows_quiet {i : ℕ} {q : CreatePhase} {table : UniqueTable StoredVersion} (h : RowsInv sha py s)
    (hrows : table.rows = s.table.rows)
    (hq : (∃ current, q = .selected current) ∨ (∃ c, q = .raised (.conflict c)) ∨ q = .raised .refused ∨ q = .raised .outage) :
    RowsInv sha py ((⟨table, s.phase⟩ : VersionsState).setPhase i q) := by
  rcases hq with ⟨current, rfl⟩ | ⟨c, rfl⟩ | rfl | rfl
  all_goals
    refine rows_setPhase h hrows ?_ ?_ ?_ ?_
    all_goals
      intro _ hr
      cases hr

/-- A commit puts the row of a call into the table. -/
theorem rows_commit {i : ℕ} {record : RuleSetVersionRecord} {q : CreatePhase} (hi : VersionsInv calls s) (h : RowsInv sha py s)
    (hp : s.phase i = .flushed record) (hq : q = .committed record ∨ q = .raised .outage) :
    RowsInv sha py ((⟨s.table.commit i, s.phase⟩ : VersionsState).setPhase i q) := by
  have hrows : (s.table.commit i).rows = s.table.rows ++ [⟨record, some i⟩] := by
    change s.table.rows ++ s.table.own i = _
    rw [hi.own i, hp]
    rfl
  have hold : ∀ {v : StoredVersion}, v ∈ s.table.rows → v ∈ (s.table.commit i).rows := fun hv =>
    hrows ▸ List.mem_append_left _ hv
  refine ⟨fun v hv => ?_, fun j r hj => ?_, fun j r hj => ?_, fun j ruleSet hj => ?_, fun j error hj => ?_⟩
  · have hv' : v ∈ (s.table.commit i).rows := hv
    rw [hrows] at hv'
    rcases List.mem_append.mp hv' with hv' | hv'
    · exact h.held v hv'
    · rw [List.mem_singleton.mp hv']
      exact h.flushed i record hp
  · rcases StepSystem.update_cases hj with ⟨-, hj⟩ | ⟨-, hj⟩
    · rcases hq with rfl | rfl <;> cases hj
    · exact h.flushed j r hj
  · rcases StepSystem.update_cases hj with ⟨rfl, hsame⟩ | ⟨-, hj⟩
    · rcases hq with rfl | rfl
      · cases hsame
        change _ ∈ (s.table.commit j).rows
        rw [hrows]
        exact List.mem_append_right _ (List.mem_singleton_self _)
      · cases hsame
    · exact hold (h.committed j r hj)
  · rcases StepSystem.update_cases hj with ⟨-, hj⟩ | ⟨-, hj⟩
    · rcases hq with rfl | rfl <;> cases hj
    · obtain ⟨r, hr, hload⟩ := h.returned j ruleSet hj
      exact ⟨r, hold hr, hload⟩
  · rcases StepSystem.update_cases hj with ⟨-, hj⟩ | ⟨-, hj⟩
    · rcases hq with rfl | rfl <;> cases hj
    · obtain ⟨r, hr, hload⟩ := h.corrupt j error hj
      exact ⟨r, hold hr, hload⟩

theorem rows_step (hi : VersionsInv calls s) (h : RowsInv sha py s) {e : CreateEvent} (hs : createStep sha py calls s e = some s') :
    RowsInv sha py s' := by
  rcases VersionsAux.createStep_cases hs with ⟨i, c, -, rfl⟩ | ⟨i, -, -, rfl⟩ | ⟨i, current, -, hs'⟩ |
    ⟨i, current, now, record, table, -, hrecord, ht, rfl⟩ | ⟨i, record, q, hp, hq, rfl⟩ | ⟨i, record, q, hp, hq, rfl⟩ | ⟨i, -, rfl⟩
  · exact rows_quiet h rfl (.inr (.inl ⟨c, rfl⟩))
  · exact rows_quiet h rfl (.inl ⟨_, rfl⟩)
  · rcases hs' with rfl | ⟨c, rfl⟩
    · exact rows_quiet h rfl (.inr (.inr (.inl rfl)))
    · exact rows_quiet h rfl (.inr (.inl ⟨c, rfl⟩))
  · -- the row that is inserted
    obtain ⟨-, -, rfl⟩ := UniqueTable.insert_inserted ht
    refine rows_setPhase h rfl ?_ ?_ ?_ ?_
    · intro r hr
      cases hr
      exact newRecord_held hrecord
    all_goals
      intro _ hr
      cases hr
  · exact rows_commit hi h hp hq
  · -- the row that is loaded
    have hrow := h.committed i record hp
    refine rows_setPhase h rfl ?_ ?_ ?_ ?_
    · rcases hq with ⟨r, rfl, -⟩ | ⟨e, rfl, -⟩ <;> exact fun _ hr => CreatePhase.noConfusion hr
    · rcases hq with ⟨r, rfl, -⟩ | ⟨e, rfl, -⟩ <;> exact fun _ hr => CreatePhase.noConfusion hr
    · intro ruleSet hr
      rcases hq with ⟨r, rfl, hload⟩ | ⟨e, rfl, -⟩
      · cases hr
        exact ⟨record, hrow, hload⟩
      · cases hr
    · intro error hx
      rcases hq with ⟨r, rfl, -⟩ | ⟨e, rfl, hload⟩
      · cases hx
      · cases hx
        exact ⟨record, hrow, hload⟩
  · exact rows_quiet h rfl (.inr (.inr (.inr rfl)))

/-- A step depends on the arguments of its own call only. -/
theorem createStep_congr {calls' : ℕ → CreateCall} {e : CreateEvent} (h : calls e.call = calls' e.call) :
    createStep sha py calls s e = createStep sha py calls' s e := by
  cases e with
  | select i => simp only [createStep, show calls i = calls' i from h]
  | flush i now => simp only [createStep, show calls i = calls' i from h]
  | commit i acknowledged => rfl
  | reload i => rfl
  | fail i => rfl

/-- A step changes the phase of its own call only. -/
theorem phase_other {e : CreateEvent} (hs : createStep sha py calls s e = some s') {j : ℕ} (hj : j ≠ e.call) :
    s'.phase j = s.phase j := by
  cases e with
  | select i =>
    simp only [createStep] at hs
    split at hs
    · split at hs
      all_goals
        cases hs
        exact Function.update_of_ne hj _ _
    · cases hs
  | flush i now =>
    simp only [createStep] at hs
    split at hs
    · split at hs
      · cases hs
        exact Function.update_of_ne hj _ _
      · split at hs
        · cases hs
        · cases hs
          exact Function.update_of_ne hj _ _
        · cases hs
          exact Function.update_of_ne hj _ _
    · cases hs
  | commit i acknowledged =>
    simp only [createStep] at hs
    split at hs
    · cases hs
      exact Function.update_of_ne hj _ _
    · cases hs
  | reload i =>
    simp only [createStep] at hs
    split at hs
    · split at hs
      all_goals
        cases hs
        exact Function.update_of_ne hj _ _
    · cases hs
  | fail i =>
    simp only [createStep] at hs
    split at hs
    all_goals
      cases hs
      try exact Function.update_of_ne hj _ _

end Rows

/-! ## Requests -/

/-- What a request may be answered with, unless it publishes: what its route may return or raise, that `/ready` is not, or a redirect. -/
inductive Answers (Corrupt : String → Prop) (request : HttpRequest) : Except ApiException ApiResponse → Prop where
  | expected {result : Except ApiException ApiResponse} (h : Expected Corrupt 200 result) : Answers Corrupt request result
  | notReady (h : request.routed = .route .ready) (detail : String) : Answers Corrupt request (.error (.http ⟨503, detail, []⟩))
  | redirected {location : String} (h : request.routed = .redirect location) :
      Answers Corrupt request (.ok (redirectResponse location))

theorem Answers.mono {Corrupt Corrupt' : String → Prop} (hmono : ∀ message, Corrupt message → Corrupt' message) {request : HttpRequest}
    {result : Except ApiException ApiResponse} (h : Answers Corrupt request result) : Answers Corrupt' request result := by
  induction h with
  | expected h => exact .expected (h.mono hmono)
  | notReady h detail => exact .notReady h detail
  | redirected h => exact .redirected h

section Requests

variable (sha : Sha256) (py : Interpreter) (reader : EventReader) (settings : ScopeSettings) (data : Position → TransactionData)
  (requests : ℕ → HttpRequest)

/-- The call a request sends. Where it sends none, what stands here is never used. -/
def sentCall (i : ℕ) : CreateCall :=
  match (requests i).accept sha py reader settings with
  | .ok (.createVersion call) => call
  | _ => ⟨"", defaultRuleSetDefinition, "", "", "", none⟩

/-- Where a request is, and what became of its call. -/
def RequestInv (rows : List RuleSetVersionRecord) (request : HttpRequest) (phase : CreatePhase) : RequestPhase → Prop
  | .absent => phase = .called
  | .reading action => phase = .called ∧ request.accept sha py reader settings = .ok action
  | .scoring _ _ => phase = .called ∧ ∃ action, request.accept sha py reader settings = .ok action
  | .publishing call => request.accept sha py reader settings = .ok (.createVersion call)
  | .responded response =>
    (phase = .called ∧ ∃ result, Answers (CorruptRow sha py rows) request result ∧
      (∀ r, result = .ok r → ∃ action, request.accept sha py reader settings = .ok action) ∧ response = request.respond result) ∨
    ∃ call raised result, request.accept sha py reader settings = .ok (.createVersion call) ∧
      Api.createVersion call.key raised phase = some result ∧ response = request.respond result

/-- What holds in every reachable state. -/
structure ServiceInv (s : ServiceState) : Prop where
  versions : (versions sha py (sentCall sha py reader settings requests)).Reachable s.versions
  rows : RowsInv sha py s.versions
  requests : ∀ i, RequestInv sha py reader settings s.rows (requests i) (s.versions.phase i) (s.requests i)

variable {sha py reader settings data requests} {naive : NaiveTimes}

/-- What a step does: it changes the decisions, the versions, or one request. -/
theorem serviceStep_cases {s s' : ServiceState} {e : ServiceEvent}
    (hs : serviceStep sha py reader settings naive data requests s e = some s') :
    (∃ event decisions, e = .record event ∧ recordStep data s.decisions event = some decisions ∧ s' = { s with decisions }) ∨
    (∃ event call versions, e = .publish event ∧ s.requests event.call = .publishing call ∧
      createStep sha py (fun _ => call) s.versions event = some versions ∧ s' = { s with versions }) ∨
    (∃ i, e = .receive i ∧ s.requests i = .absent ∧ s' = s.setRequest i (.ofAdmission sha py reader settings (requests i))) ∨
    (∃ i action phase, e = .select i ∧ s.requests i = .reading action ∧ s.select sha py naive (requests i) action = some phase ∧
      s' = s.setRequest i phase) ∨
    (∃ i ruleSet body, e = .select i ∧ s.requests i = .scoring ruleSet body ∧
      s' = s.setRequest i (.responded ((requests i).respond (Api.scored s.records ruleSet (requests i).now body)))) ∨
    (∃ i raised, e = .fail i raised ∧ ((∃ action, s.requests i = .reading action) ∨ ∃ ruleSet body, s.requests i = .scoring ruleSet body) ∧
      s' = s.setRequest i (.responded ((requests i).respond (.error (.other raised))))) ∨
    (∃ i database redis, e = .pinged i database redis ∧ s.requests i = .reading .ready ∧
      s' = s.setRequest i (.responded ((requests i).respond (Api.ready database redis)))) ∨
    (∃ i raised call result, e = .answer i raised ∧ s.requests i = .publishing call ∧
      Api.createVersion call.key raised (s.versions.phase i) = some result ∧
      s' = s.setRequest i (.responded ((requests i).respond result))) := by
  cases e with
  | record event =>
    obtain ⟨decisions, hd, rfl⟩ := Option.map_eq_some_iff.mp hs
    exact .inl ⟨event, decisions, rfl, hd, rfl⟩
  | receive i =>
    simp only [serviceStep] at hs
    split at hs
    · rename_i hp
      cases hs
      exact .inr (.inr (.inl ⟨i, rfl, hp, rfl⟩))
    · cases hs
  | publish event =>
    simp only [serviceStep] at hs
    split at hs
    · rename_i call hp
      obtain ⟨versions, hv, rfl⟩ := Option.map_eq_some_iff.mp hs
      exact .inr (.inl ⟨event, call, versions, rfl, hp, hv, rfl⟩)
    · cases hs
  | select i =>
    simp only [serviceStep] at hs
    split at hs
    · rename_i action hp
      obtain ⟨phase, hphase, rfl⟩ := Option.map_eq_some_iff.mp hs
      exact .inr (.inr (.inr (.inl ⟨i, action, phase, rfl, hp, hphase, rfl⟩)))
    · rename_i ruleSet body hp
      cases hs
      exact .inr (.inr (.inr (.inr (.inl ⟨i, ruleSet, body, rfl, hp, rfl⟩))))
    · cases hs
  | fail i raised =>
    simp only [serviceStep] at hs
    split at hs
    · rename_i action hp
      cases hs
      exact .inr (.inr (.inr (.inr (.inr (.inl ⟨i, raised, rfl, .inl ⟨action, hp⟩, rfl⟩)))))
    · rename_i ruleSet body hp
      cases hs
      exact .inr (.inr (.inr (.inr (.inr (.inl ⟨i, raised, rfl, .inr ⟨ruleSet, body, hp⟩, rfl⟩)))))
    · cases hs
  | pinged i database redis =>
    simp only [serviceStep] at hs
    split at hs
    · rename_i hp
      cases hs
      exact .inr (.inr (.inr (.inr (.inr (.inr (.inl ⟨i, database, redis, rfl, hp, rfl⟩))))))
    · cases hs
  | answer i raised =>
    simp only [serviceStep] at hs
    split at hs
    · rename_i call hp
      obtain ⟨result, hresult, rfl⟩ := Option.map_eq_some_iff.mp hs
      exact .inr (.inr (.inr (.inr (.inr (.inr (.inr ⟨i, raised, call, result, rfl, hp, hresult, rfl⟩))))))
    · cases hs

/-- What the statement of a request leads to: the response to something expected, or the next statement of an evaluation. -/
theorem select_cases {s : ServiceState} {request : HttpRequest} {action : Action} {phase : RequestPhase}
    (h : s.select sha py naive request action = some phase) :
    (∃ ruleSet body, phase = .scoring ruleSet body) ∨
      ∃ result, Expected (CorruptRow sha py s.rows) 200 result ∧ phase = .responded (request.respond result) := by
  unfold ServiceState.select at h
  split at h
  · cases h
    exact .inr ⟨_, expected_transaction _ _, rfl⟩
  · cases h
    exact .inr ⟨_, expected_transactions _ _ _ _ _, rfl⟩
  · cases h
    exact .inr ⟨_, expected_versions sha py _ _ _ _, rfl⟩
  · cases h
    exact .inr ⟨_, expected_active sha py _ _, rfl⟩
  · cases h
    exact .inr ⟨_, expected_version sha py _ _ _, rfl⟩
  · split at h
    · rename_i exc hexc
      cases h
      exact .inr ⟨.error exc, latestRuleSet_documented sha py _ _ exc hexc, rfl⟩
    · cases h
      exact .inl ⟨_, _, rfl⟩
  · cases h

/-- An exception is no response. -/
theorem raised_ne {exc : ApiException} {P : Prop} (r : ApiResponse) (h : (Except.error exc : Except ApiException ApiResponse) = .ok r) :
    P := by
  cases h

/-- Where a request is after it was admitted or refused. -/
theorem inv_admission (rows : List RuleSetVersionRecord) (request : HttpRequest) :
    RequestInv sha py reader settings rows request .called (.ofAdmission sha py reader settings request) := by
  unfold RequestPhase.ofAdmission
  split
  · rename_i exc hexc
    exact .inl ⟨rfl, .error exc, .expected (accept_documented sha py reader settings request exc hexc), raised_ne, rfl⟩
  · rename_i location hredirect
    exact .inl ⟨rfl, _, .redirected (accept_redirect hredirect), fun _ _ => ⟨_, hredirect⟩, rfl⟩
  · rename_i hlive
    exact .inl ⟨rfl, .ok (okResponse .live), .expected (expected_ok nofun), fun _ _ => ⟨_, hlive⟩, rfl⟩
  · rename_i hmetrics
    exact .inl ⟨rfl, .ok (okResponse .metrics), .expected (expected_ok nofun), fun _ _ => ⟨_, hmetrics⟩, rfl⟩
  · rename_i call hcall
    exact hcall
  · rename_i action haction
    exact ⟨rfl, haction⟩

/-- `/ready` says that it is, or is told that it is not. -/
theorem ready_cases {Corrupt : String → Prop} {request : HttpRequest} (h : request.accept sha py reader settings = .ok .ready)
    (database redis : Bool) : Answers Corrupt request (Api.ready database redis) := by
  cases database
  · cases redis
    · exact .notReady (accept_ready h) _
    · exact .notReady (accept_ready h) _
  · cases redis
    · exact .notReady (accept_ready h) _
    · exact .expected (expected_ok nofun)

/-- A step of the call of a request is one of the calls that the requests send. -/
theorem publish_sent {s : ServiceState} (h : ServiceInv sha py reader settings requests s) {event : CreateEvent} {call : CreateCall}
    (hp : s.requests event.call = .publishing call) :
    createStep sha py (fun _ => call) s.versions event = createStep sha py (sentCall sha py reader settings requests) s.versions event := by
  have hreq := h.requests event.call
  rw [hp] at hreq
  refine createStep_congr ?_
  unfold sentCall
  rw [show (requests event.call).accept sha py reader settings = .ok (.createVersion call) from hreq]

/-- Rows are only added. -/
theorem rows_grow {s s' : ServiceState} (h : ServiceInv sha py reader settings requests s) {e : ServiceEvent}
    (hs : serviceStep sha py reader settings naive data requests s e = some s') : s.rows ⊆ s'.rows := by
  rcases serviceStep_cases hs with ⟨event, decisions, rfl, -, rfl⟩ | ⟨event, call, versions, rfl, hp, hv, rfl⟩ | ⟨i, rfl, hp, rfl⟩ |
    ⟨i, action, phase, rfl, hp, hselect, rfl⟩ | ⟨i, ruleSet, body, rfl, hp, rfl⟩ | ⟨i, raised, rfl, hp, rfl⟩ |
    ⟨i, database, redis, rfl, hp, rfl⟩ | ⟨i, raised, call, result, rfl, hp, hresult, rfl⟩
  · exact List.Subset.refl _
  · rw [publish_sent h hp] at hv
    obtain ⟨added, hrows, -⟩ := VersionsAux.step_rows (VersionsAux.inv_reachable h.versions) hv
    intro row hrow
    obtain ⟨v, hv, rfl⟩ := List.mem_map.mp hrow
    exact List.mem_map_of_mem (hrows ▸ List.mem_append_left added hv)
  · exact List.Subset.refl _
  · exact List.Subset.refl _
  · exact List.Subset.refl _
  · exact List.Subset.refl _
  · exact List.Subset.refl _
  · exact List.Subset.refl _

/-- What was said of a request stays true as rows are added. -/
theorem RequestInv.grow {rows rows' : List RuleSetVersionRecord} (hrows : rows ⊆ rows') {request : HttpRequest} {phase : CreatePhase}
    {p : RequestPhase} (h : RequestInv sha py reader settings rows request phase p) :
    RequestInv sha py reader settings rows' request phase p := by
  cases p with
  | responded response =>
    rcases h with ⟨hphase, result, hanswers, haccept, hresponse⟩ | h
    · refine .inl ⟨hphase, result, hanswers.mono ?_, haccept, hresponse⟩
      rintro message ⟨row, hrow, error, hload, hmessage⟩
      exact ⟨row, hrows hrow, error, hload, hmessage⟩
    · exact .inr h
  | _ => exact h

theorem inv_setRequest {s : ServiceState} {i : ℕ} {phase : RequestPhase} (h : ServiceInv sha py reader settings requests s)
    (hphase : RequestInv sha py reader settings s.rows (requests i) (s.versions.phase i) phase) :
    ServiceInv sha py reader settings requests (s.setRequest i phase) where
  versions := h.versions
  rows := h.rows
  requests j := by
    change RequestInv sha py reader settings s.rows (requests j) (s.versions.phase j) (Function.update s.requests i phase j)
    by_cases hj : j = i
    · subst hj
      rw [Function.update_self]
      exact hphase
    · rw [Function.update_of_ne hj]
      exact h.requests j

theorem inv_step {s s' : ServiceState} {e : ServiceEvent} (h : ServiceInv sha py reader settings requests s)
    (hs : serviceStep sha py reader settings naive data requests s e = some s') : ServiceInv sha py reader settings requests s' := by
  have hgrow := rows_grow h hs
  rcases serviceStep_cases hs with ⟨event, decisions, rfl, -, rfl⟩ | ⟨event, call, versions, rfl, hp, hv, rfl⟩ | ⟨i, rfl, hp, rfl⟩ |
    ⟨i, action, phase, rfl, hp, hselect, rfl⟩ | ⟨i, ruleSet, body, rfl, hp, rfl⟩ | ⟨i, raised, rfl, hp, rfl⟩ |
    ⟨i, database, redis, rfl, hp, rfl⟩ | ⟨i, raised, call, result, rfl, hp, hresult, rfl⟩
  · exact ⟨h.versions, h.rows, h.requests⟩
  · -- the call of a step is that of its request
    have hreq := h.requests event.call
    rw [hp] at hreq
    rw [publish_sent h hp] at hv
    refine ⟨.step h.versions trivial hv, rows_step (VersionsAux.inv_reachable h.versions) h.rows hv, fun j => ?_⟩
    by_cases hj : j = event.call
    · subst hj
      change RequestInv sha py reader settings _ _ (versions.phase event.call) (s.requests event.call)
      rw [hp]
      exact hreq
    · change RequestInv sha py reader settings versions.rows _ (versions.phase j) (s.requests j)
      rw [phase_other hv hj]
      exact (h.requests j).grow hgrow
  · refine inv_setRequest h ?_
    have hreq := h.requests i
    rw [hp] at hreq
    rw [show s.versions.phase i = .called from hreq]
    exact inv_admission s.rows (requests i)
  · refine inv_setRequest h ?_
    have hreq := h.requests i
    rw [hp] at hreq
    rcases select_cases hselect with ⟨ruleSet, body, rfl⟩ | ⟨result, hexpected, rfl⟩
    · exact ⟨hreq.1, _, hreq.2⟩
    · exact .inl ⟨hreq.1, result, .expected hexpected, fun _ _ => ⟨_, hreq.2⟩, rfl⟩
  · refine inv_setRequest h ?_
    have hreq := h.requests i
    rw [hp] at hreq
    exact .inl ⟨hreq.1, Api.scored s.records ruleSet (requests i).now body, .expected (expected_scored _ _ _ _), fun _ _ => hreq.2, rfl⟩
  · refine inv_setRequest h ?_
    have hreq := h.requests i
    rcases hp with ⟨action, hp⟩ | ⟨ruleSet, body, hp⟩
    · rw [hp] at hreq
      exact .inl ⟨hreq.1, .error (.other raised), .expected trivial, raised_ne, rfl⟩
    · rw [hp] at hreq
      exact .inl ⟨hreq.1, .error (.other raised), .expected trivial, raised_ne, rfl⟩
  · refine inv_setRequest h ?_
    have hreq := h.requests i
    rw [hp] at hreq
    exact .inl ⟨hreq.1, Api.ready database redis, ready_cases hreq.2 database redis, fun _ _ => ⟨_, hreq.2⟩, rfl⟩
  · refine inv_setRequest h ?_
    have hreq := h.requests i
    rw [hp] at hreq
    exact .inr ⟨call, raised, result, hreq, hresult, rfl⟩

theorem inv_reachable {s : ServiceState} (h : (service sha py reader settings naive data requests).Reachable s) :
    ServiceInv sha py reader settings requests s := by
  refine StepSystem.Reachable.invariant ?_ ?_ h
  rotate_left
  · intro s e s' hi hs
    exact inv_step hi hs
  rintro s ⟨hversions, hheld, -, habsent⟩
  obtain ⟨hcalled, hpending, hnone, hgap⟩ := hversions (sentCall sha py reader settings requests)
  refine ⟨.start ⟨hcalled, hpending, hnone, hgap⟩, ⟨?_, ?_, ?_, ?_, ?_⟩, fun i => ?_⟩
  · exact fun v hv => hheld v.record (List.mem_map_of_mem hv)
  · intro i record hi
    rw [hcalled i] at hi
    cases hi
  · intro i record hi
    rw [hcalled i] at hi
    cases hi
  · intro i record hi
    rw [hcalled i] at hi
    cases hi
  · intro i error hi
    rw [hcalled i] at hi
    cases hi
  · rw [habsent i]
    exact hcalled i

end Requests

end ServingAux

end FraudDetection
