import FraudDetection.DecisionStore
import FraudDetection.Theorems.Decisions

/-!
# Decisions are made one at a time

A call of `record_decision` is three statements and a commit, beside any other calls and queries. Still the calls take effect one at a
time: at the commit, where a call's rows become visible together, or at the statement that finds another decision. The store of
decisions, which answers one request after another, gives every call the answer it got.
-/

namespace FraudDetection

namespace RecordPhase

/-- A call that has not ended. -/
def UnderWay : RecordPhase → Prop
  | .returned _ _ | .raised _ _ => False
  | _ => True

/-- What the store has done for a call in this phase. Of a lost connection nobody knows. -/
def Performed : RecordPhase → Option (StoreRequest × StoreAnswer) → Prop
  | .returned call result, done => ∃ now, done = some (.record call now, .recorded (.ok result))
  | .raised call .conflictingDuplicate, done => ∃ now, done = some (.record call now, .recorded (.error .conflictingDuplicate))
  | .raised call .outage, done => done = none ∨ ∃ now result, done = some (.record call now, .recorded (.ok result))
  | _, done => done = none

end RecordPhase

/-- What the store has done for a query in this phase. -/
def QueryPhase.Performed : QueryPhase → Option (StoreRequest × StoreAnswer) → Prop
  | .returned query selected, done => done = some (.query query, .selected selected)
  | _, done => done = none

/-- The database and the store agree: on both tables, row by row, and on every call. -/
structure StoreRel (s : DatabaseState) (a : StepSystem.Called CallId DecisionStore StoreRequest StoreAnswer) : Prop where
  decisions : a.object.decisions = s.rows
  trail : a.object.trail = s.audit
  calls : ∀ i, (s.decisions.phase i).Performed (a.performed (.inl i))
  queries : ∀ j, (s.queries j).Performed (a.performed (.inr j))

namespace StoreAux

variable {naive : NaiveTimes}

/-! ## The steps of a call -/

theorem performed_underWay {p : RecordPhase} (h : p.UnderWay) {done : Option (StoreRequest × StoreAnswer)}
    (hd : p.Performed done) : done = none := by
  cases p with
  | returned call result => exact absurd h id
  | raised call error => exact absurd h id
  | _ => exact hd

/-- What a step of a call does, as the store sees it: nothing, a commit, or the discovery of another decision. -/
theorem record_cases {data : Position → TransactionData} {s s' : DecisionsState} {e : RecordEvent}
    (queries : ℕ → QueryPhase) (h : recordStep data s e = some s') :
    (storeEvents ⟨s, queries⟩ (.record e) = [] ∧ s'.transactions.rows = s.transactions.rows ∧
      s'.history.rows = s.history.rows ∧ ∃ i q, (s.phase i).UnderWay ∧ s'.phase = Function.update s.phase i q ∧ q.Performed none) ∨
    (∃ i acknowledged call result, e = .commit i acknowledged ∧ s.phase i = .written call result ∧
      s' = s.commit i (if acknowledged then .returned call result else .raised call .outage)) ∨
    ∃ i call existing, e = .selectExisting i ∧ s.phase i = .present call ∧ s.find call.decision.transactionId = some existing ∧
      ¬sameTransaction (decisionFromRecord existing.record) call.decision ∧ s' = s.raise i call .conflictingDuplicate := by
  cases e with
  | begin i call =>
    obtain ⟨hp, rfl⟩ := DecisionsAux.begin_some h
    exact .inl ⟨rfl, rfl, rfl, i, _, by rw [hp]; trivial, rfl, rfl⟩
  | insertDecision i now =>
    simp only [recordStep] at h
    split at h
    · rename_i call hp
      have hw : (s.phase i).UnderWay := by rw [hp]; trivial
      split at h
      · split at h
        · cases h
        · cases h
          exact .inl ⟨rfl, rfl, rfl, i, _, hw, rfl, rfl⟩
        · rename_i table ht
          obtain ⟨-, -, rfl⟩ := UniqueTable.insert_inserted ht
          cases h
          exact .inl ⟨rfl, rfl, rfl, i, _, hw, rfl, rfl⟩
      · cases h
        exact .inl ⟨rfl, rfl, rfl, i, _, hw, rfl, rfl⟩
    · cases h
  | selectExisting i =>
    simp only [recordStep] at h
    split at h
    · rename_i call hp
      have hw : (s.phase i).UnderWay := by rw [hp]; trivial
      split at h
      · rename_i hf
        cases h
        exact .inl ⟨by simp only [storeEvents, hp, hf], rfl, rfl, i, _, hw, rfl, rfl⟩
      · rename_i existing hf
        split at h
        · rename_i hs
          cases h
          exact .inl ⟨by simp only [storeEvents, hp, hf, if_pos hs], rfl, rfl, i, _, hw, rfl, rfl⟩
        · rename_i hs
          cases h
          exact .inr (.inr ⟨i, call, existing, rfl, hp, hf, hs, rfl⟩)
    · cases h
  | insertHistory i =>
    simp only [recordStep] at h
    split at h
    · rename_i call result hp
      have hw : (s.phase i).UnderWay := by rw [hp]; trivial
      split at h
      · split at h
        · cases h
        · cases h
          exact .inl ⟨rfl, rfl, rfl, i, _, hw, rfl, rfl⟩
        · rename_i table ht
          obtain ⟨-, -, rfl⟩ := UniqueTable.insert_inserted ht
          cases h
          exact .inl ⟨rfl, rfl, rfl, i, _, hw, rfl, rfl⟩
      · cases h
        exact .inl ⟨rfl, rfl, rfl, i, _, hw, rfl, rfl⟩
    · cases h
  | commit i acknowledged =>
    simp only [recordStep] at h
    split at h
    · rename_i call result hp
      cases h
      exact .inr (.inl ⟨i, acknowledged, call, result, rfl, hp, rfl⟩)
    · cases h
  | fail i =>
    simp only [recordStep] at h
    split at h
    all_goals
      first
      | (rename_i hp
         cases h
         exact .inl ⟨rfl, rfl, rfl, i, _, by rw [hp]; trivial, rfl, .inl rfl⟩)
      | cases h

/-! ## What the store does at an effect -/

theorem getTransaction_rows (s : DatabaseState) (transactionId : Uuid) :
    getTransaction s.rows transactionId = (s.decisions.find transactionId).map (·.record) := by
  unfold getTransaction DatabaseState.rows DecisionsState.find
  rw [List.find?_map]
  rfl

/-- What the trail of the store becomes when a call commits: its own history row is new, or its position was taken. -/
theorem note_commit {data : Position → TransactionData} {s : DatabaseState} {i : ℕ} {call : RecordCall} {result : RecordResult}
    (h : DecisionsInv data s.decisions) (hp : s.decisions.phase i = .written call result) {store : DecisionStore}
    (ht : store.trail = s.audit) :
    store.note call result = ((s.decisions.history.commit i).rows.map (·.record)) := by
  have hown := h.ownH i
  rw [hp] at hown
  unfold DecisionStore.note
  rw [ht]
  rcases hown with hown | ⟨hown, -, a, ha, hk⟩
  · -- the row is the call's own, so no committed row has its position
    have hfree : ¬∃ row ∈ s.audit, row.position = call.provenance.position := by
      rintro ⟨row, hrow, hk⟩
      obtain ⟨a, ha, rfl⟩ := List.mem_map.mp hrow
      have hmem : auditRow i call result ∈ s.decisions.history.own i := by
        rw [hown]
        exact List.mem_singleton_self _
      exact h.keyedH.ne_of_own ha hmem hk
    rw [if_neg hfree]
    simp only [UniqueTable.commit, hown, List.map_append, List.map_cons, List.map_nil]
    rfl
  · rw [if_pos ⟨a.record, List.mem_map_of_mem ha, hk⟩]
    simp only [UniqueTable.commit, hown, List.append_nil]
    rfl

/-- A call that commits is what the store does for it: both tables become what they are after the commit, and the result is the
same. -/
theorem decide_commit {data : Position → TransactionData} {s : DatabaseState} {i : ℕ} {call : RecordCall}
    {result : RecordResult} (h : DecisionsInv data s.decisions) (hp : s.decisions.phase i = .written call result)
    {store : DecisionStore} (hd : store.decisions = s.rows) (ht : store.trail = s.audit) :
    store.decide call (s.decisions.madeAt i) =
      (⟨(s.decisions.transactions.commit i).rows.map (·.record), (s.decisions.history.commit i).rows.map (·.record)⟩,
        .ok result) := by
  have hown := h.ownT i
  have hknown := h.known i
  rw [hp] at hown hknown
  simp only [RecordPhase.OwnDecision] at hown
  simp only [RecordPhase.Known, RecordResult.Known] at hknown
  unfold DecisionStore.decide
  rw [hd, getTransaction_rows]
  cases ho : result.outcome with
  | evaluated =>
    rw [ho] at hown hknown
    obtain ⟨t, hown, now, rfl⟩ := hown
    -- the row is the call's own, so no committed row has its key
    have hfind : s.decisions.find call.decision.transactionId = none := by
      cases hf : s.decisions.find call.decision.transactionId with
      | none => rfl
      | some existing =>
        obtain ⟨hmem, hkey⟩ := DecisionsAux.find_some hf
        have hmine : (⟨transactionRecord call.decision now, i, call.provenance⟩ : StoredDecision) ∈
            s.decisions.transactions.own i := by
          rw [hown]
          exact List.mem_singleton_self _
        exact absurd hkey (h.keyedT.ne_of_own hmem hmine)
    have hresult : result = ⟨.evaluated, call.decision⟩ := by
      rw [← ho, ← hknown]
    have hnow : s.decisions.madeAt i = now := by
      simp only [DecisionsState.madeAt, hown]
      rfl
    rw [hfind, ← hresult, hnow]
    simp only [Option.map_none, note_commit h hp ht]
    simp only [UniqueTable.commit, hown, List.map_append, List.map_cons, List.map_nil]
    rfl
  | duplicate =>
    rw [ho] at hown hknown
    obtain ⟨t, hmem, hkey, hdata, hdec⟩ := hknown
    have hfind : s.decisions.find call.decision.transactionId = some t := by
      cases hf : s.decisions.find call.decision.transactionId with
      | none => exact absurd hkey (DecisionsAux.find_none hf t hmem)
      | some existing =>
        obtain ⟨hmem', hkey'⟩ := DecisionsAux.find_some hf
        rw [h.keyedT.eq_of_key hmem' hmem (hkey'.trans hkey.symm)]
    have hsame : sameTransaction (decisionFromRecord t.record) call.decision = true :=
      (DecisionsAux.sameTransaction_iff _ _).mpr (DecisionsAux.not_differs_of_data hdata)
    have hresult : result = ⟨.duplicate, decisionFromRecord t.record⟩ := by
      rw [← ho, ← hdec]
    rw [hfind]
    simp only [Option.map_some, if_pos hsame]
    rw [← hresult, note_commit h hp ht]
    simp only [UniqueTable.commit, hown, List.append_nil]
    rfl

/-- A call that finds another decision is refused by the store. -/
theorem decide_conflict {s : DatabaseState} {call : RecordCall} {existing : StoredDecision} {store : DecisionStore}
    (hd : store.decisions = s.rows) (hf : s.decisions.find call.decision.transactionId = some existing)
    (hs : ¬sameTransaction (decisionFromRecord existing.record) call.decision) (now : Timestamp) :
    store.decide call now = (store, .error .conflictingDuplicate) := by
  unfold DecisionStore.decide
  rw [hd, getTransaction_rows, hf]
  simp only [Option.map_some, if_neg hs]

/-! ## The simulation -/

/-- An effect of one call is a step of the store. -/
theorem store_step {a : StepSystem.Called CallId DecisionStore StoreRequest StoreAnswer} {k : CallId} {request : StoreRequest}
    (hn : a.performed k = none) :
    ((decisionStore naive).calls CallId).run a [(k, request)] = some ⟨((decisionStore naive).apply a.object request).1,
      Function.update a.performed k (some (request, ((decisionStore naive).apply a.object request).2))⟩ := by
  simp only [StepSystem.run, StepSystem.AtomicObject.calls, hn, Option.bind_some]

/-- The rows of a reachable database are those of reachable decisions. -/
theorem inv_reachable {data : Position → TransactionData} {s : DatabaseState} (h : (database naive data).Reachable s) :
    DecisionsInv data s.decisions := by
  refine @StepSystem.Reachable.invariant _ _ _ (fun s : DatabaseState => DecisionsInv data s.decisions) ?_ ?_ _ h
  · rintro s rfl
    exact DecisionsAux.inv_empty data
  · intro s e s' hi hs
    cases e with
    | record e =>
      obtain ⟨t, ht, rfl⟩ := Option.map_eq_some_iff.mp hs
      exact DecisionsAux.inv_step hi (DecisionsAux.step_of ht)
    | query j query =>
      simp only [database, databaseStep] at hs
      split at hs
      · cases hs
        exact hi
      · cases hs
    | select j =>
      simp only [database, databaseStep] at hs
      split at hs
      · cases hs
        exact hi
      · cases hs
    | failQuery j =>
      simp only [database, databaseStep] at hs
      split at hs
      · cases hs
        exact hi
      · cases hs

/-- The store goes on as the database does when one call of `record_decision` changes its phase. -/
theorem rel_record {s : DatabaseState} {a : StepSystem.Called CallId DecisionStore StoreRequest StoreAnswer}
    (h : StoreRel s a) {decisions : DecisionsState} {object : DecisionStore} {i : ℕ} {q : RecordPhase}
    {done : Option (StoreRequest × StoreAnswer)} (hd : object.decisions = decisions.transactions.rows.map (·.record))
    (ht : object.trail = decisions.history.rows.map (·.record)) (hq : q.Performed done)
    (hphase : decisions.phase = Function.update s.decisions.phase i q) :
    StoreRel ⟨decisions, s.queries⟩ ⟨object, Function.update a.performed (.inl i) done⟩ := by
  refine ⟨hd, ht, fun j => ?_, fun j => ?_⟩
  · by_cases hj : j = i
    · subst hj
      simp only [hphase, Function.update_self]
      exact hq
    · have hne : (Sum.inl j : CallId) ≠ .inl i := fun heq => hj (Sum.inl.inj heq)
      simp only [hphase, Function.update_of_ne hj, Function.update_of_ne hne]
      exact h.calls j
  · simp only [Function.update_of_ne (Sum.inr_ne_inl : (Sum.inr j : CallId) ≠ .inl i)]
    exact h.queries j

/-- The store goes on as the database does when one query changes its phase. -/
theorem rel_query {s : DatabaseState} {a : StepSystem.Called CallId DecisionStore StoreRequest StoreAnswer} (h : StoreRel s a)
    {j : ℕ} {q : QueryPhase} {done : Option (StoreRequest × StoreAnswer)} (hq : q.Performed done) :
    StoreRel ⟨s.decisions, Function.update s.queries j q⟩ ⟨a.object, Function.update a.performed (.inr j) done⟩ := by
  refine ⟨h.decisions, h.trail, fun i => ?_, fun k => ?_⟩
  · simp only [Function.update_of_ne (Sum.inl_ne_inr : (Sum.inl i : CallId) ≠ .inr j)]
    exact h.calls i
  · by_cases hk : k = j
    · subst hk
      simp only [Function.update_self]
      exact hq
    · have hne : (Sum.inr k : CallId) ≠ .inr j := fun heq => hk (Sum.inr.inj heq)
      simp only [Function.update_of_ne hk, Function.update_of_ne hne]
      exact h.queries k

/-- Every step of a call of `record_decision` is what the store does, or nothing. -/
theorem record_step {data : Position → TransactionData} {s : DatabaseState} {decisions : DecisionsState} {e : RecordEvent}
    {a : StepSystem.Called CallId DecisionStore StoreRequest StoreAnswer} (hi : DecisionsInv data s.decisions) (h : StoreRel s a)
    (hs : recordStep data s.decisions e = some decisions) :
    ∃ a', ((decisionStore naive).calls CallId).run a (storeEvents s (.record e)) = some a' ∧ StoreRel ⟨decisions, s.queries⟩ a' := by
  rcases record_cases s.queries hs with ⟨hev, hrows, haudit, i, q, hw, hphase, hq⟩ |
    ⟨i, acknowledged, call, result, rfl, hp, rfl⟩ | ⟨i, call, existing, rfl, hp, hf, hsame, rfl⟩
  · -- nothing is visible yet, or ever
    have hnone : a.performed (.inl i) = none := performed_underWay hw (h.calls i)
    refine ⟨a, by rw [hev]; rfl, ?_⟩
    have hd : a.object.decisions = decisions.transactions.rows.map (·.record) := by
      rw [hrows]
      exact h.decisions
    have ht : a.object.trail = decisions.history.rows.map (·.record) := by
      rw [haudit]
      exact h.trail
    have hrel := rel_record h hd ht hq hphase
    rw [← hnone, Function.update_eq_self] at hrel
    exact hrel
  · have hnone : a.performed (.inl i) = none := performed_underWay (by rw [hp]; trivial) (h.calls i)
    have hev : storeEvents s (.record (.commit i acknowledged)) = [(.inl i, .record call (s.decisions.madeAt i))] := by
      simp only [storeEvents, hp]
    have hdecide := decide_commit hi hp h.decisions h.trail
    refine ⟨_, by rw [hev]; exact store_step hnone, ?_⟩
    refine rel_record h ?_ ?_ ?_ rfl
    · simp only [decisionStore, hdecide]
      rfl
    · simp only [decisionStore, hdecide]
      rfl
    · simp only [decisionStore, hdecide]
      cases acknowledged with
      | true => exact ⟨_, rfl⟩
      | false => exact .inr ⟨_, _, rfl⟩
  · have hnone : a.performed (.inl i) = none := performed_underWay (by rw [hp]; trivial) (h.calls i)
    have hev : storeEvents s (.record (.selectExisting i)) = [(.inl i, .record call (s.decisions.madeAt i))] := by
      simp only [storeEvents, hp, hf, if_neg hsame]
    have hdecide := decide_conflict h.decisions hf hsame (s.decisions.madeAt i)
    refine ⟨_, by rw [hev]; exact store_step hnone, ?_⟩
    refine rel_record h ?_ ?_ ?_ rfl
    · simp only [decisionStore, hdecide]
      exact h.decisions
    · simp only [decisionStore, hdecide]
      exact h.trail
    · simp only [decisionStore, hdecide]
      exact ⟨_, rfl⟩

/-- Every step of the database is what the store does, or nothing. -/
theorem database_step {data : Position → TransactionData} {s s' : DatabaseState} {e : DatabaseEvent}
    {a : StepSystem.Called CallId DecisionStore StoreRequest StoreAnswer} (hi : DecisionsInv data s.decisions) (h : StoreRel s a)
    (hs : databaseStep naive data s e = some s') :
    ∃ a', ((decisionStore naive).calls CallId).run a (storeEvents s e) = some a' ∧ StoreRel s' a' := by
  cases e with
  | record e =>
    obtain ⟨decisions, hd, rfl⟩ := Option.map_eq_some_iff.mp hs
    exact record_step hi h hd
  | query j query =>
    simp only [databaseStep] at hs
    split at hs
    · rename_i hp
      cases hs
      have hnone : a.performed (.inr j) = none := by simpa only [hp, QueryPhase.Performed] using h.queries j
      refine ⟨a, rfl, ?_⟩
      have hrel : StoreRel ⟨s.decisions, Function.update s.queries j (.called query)⟩ _ := rel_query h rfl
      rw [← hnone, Function.update_eq_self] at hrel
      exact hrel
    · cases hs
  | select j =>
    simp only [databaseStep] at hs
    split at hs
    · rename_i query hp
      cases hs
      have hnone : a.performed (.inr j) = none := by simpa only [hp, QueryPhase.Performed] using h.queries j
      have hev : storeEvents s (.select j) = [(.inr j, .query query)] := by simp only [storeEvents, hp]
      refine ⟨_, by rw [hev]; exact store_step hnone, ?_⟩
      refine rel_query h ?_
      simp only [QueryPhase.Performed, decisionStore, h.decisions]
    · cases hs
  | failQuery j =>
    simp only [databaseStep] at hs
    split at hs
    · rename_i query hp
      cases hs
      have hnone : a.performed (.inr j) = none := by simpa only [hp, QueryPhase.Performed] using h.queries j
      refine ⟨a, rfl, ?_⟩
      have hrel : StoreRel ⟨s.decisions, Function.update s.queries j (.failed query)⟩ _ := rel_query h rfl
      rw [← hnone, Function.update_eq_self] at hrel
      exact hrel
    · cases hs

/-- The database refines the store. -/
def simulation (naive : NaiveTimes) (data : Position → TransactionData) :
    StepSystem.Simulation (database naive data) ((decisionStore naive).calls CallId) where
  Rel := StoreRel
  events := storeEvents
  start := by
    rintro s rfl
    exact ⟨_, rfl, rfl, rfl, fun _ => rfl, fun _ => rfl⟩
  step := fun s a e s' hs _ hrel hstep => database_step (inv_reachable hs) hrel hstep

/-- What a call has been answered is what the store did for it. -/
theorem answered_performed {s : DatabaseState} {a : StepSystem.Called CallId DecisionStore StoreRequest StoreAnswer}
    (h : StoreRel s a) (k : CallId) (c : Option Answered) (hc : s.answered k = some c) :
    ∃ x r, a.performed k = some (x, r) ∧ callerSees x r = c := by
  cases k with
  | inl i =>
    have hcall := h.calls i
    simp only [DatabaseState.answered] at hc
    split at hc
    · rename_i call result hp
      rw [hp] at hcall
      obtain ⟨now, hdone⟩ := hcall
      exact ⟨_, _, hdone, Option.some.inj hc⟩
    · rename_i call hp
      rw [hp] at hcall
      obtain ⟨now, hdone⟩ := hcall
      exact ⟨_, _, hdone, Option.some.inj hc⟩
    · cases hc
  | inr j =>
    have hquery := h.queries j
    simp only [DatabaseState.answered] at hc
    split at hc
    · rename_i query selected hp
      rw [hp] at hquery
      exact ⟨_, _, hquery, Option.some.inj hc⟩
    · cases hc

/-- The store has done nothing for any other call. -/
theorem performed_mayHaveEffect {s : DatabaseState} {a : StepSystem.Called CallId DecisionStore StoreRequest StoreAnswer}
    (h : StoreRel s a) (k : CallId) (hk : a.performed k ≠ none) : s.MayHaveEffect k := by
  cases k with
  | inl i =>
    have hcall := h.calls i
    simp only [DatabaseState.MayHaveEffect]
    cases hp : s.decisions.phase i with
    | returned call result => trivial
    | raised call error =>
      rw [hp] at hcall
      cases error with
      | conflictingDuplicate => trivial
      | outage => trivial
      | refused => exact absurd hcall hk
      | attributeError => exact absurd hcall hk
    | _ =>
      rw [hp] at hcall
      exact absurd hcall hk
  | inr j =>
    have hquery := h.queries j
    simp only [DatabaseState.MayHaveEffect]
    cases hp : s.queries j with
    | returned query selected => trivial
    | _ =>
      rw [hp] at hquery
      exact absurd hquery hk

end StoreAux

open StoreAux

/-- Concurrent calls of `record_decision`, `get_transaction`, `get_velocity_aggregates` and `list_transactions` are linearizable: the
store of decisions, asked one request at a time in an order that only grows with the run, holds exactly the committed rows of both
tables and gives every call the answer it got. Only a call that was answered, or lost its connection, takes effect. -/
theorem decisions_linearizable (naive : NaiveTimes) (data : Position → TransactionData) :
    StepSystem.Linearization (database naive data) (decisionStore naive) (fun s store => store = ⟨s.rows, s.audit⟩)
      DatabaseState.answered callerSees DatabaseState.MayHaveEffect (effectOrder naive data) := by
  refine (simulation naive data).linearization ?_ ?_ ?_
  · intro s a h
    exact congrArg₂ DecisionStore.mk h.decisions h.trail
  · intro s a h
    exact answered_performed h
  · intro s a h
    exact performed_mayHaveEffect h

namespace StoreAux

variable {naive : NaiveTimes}

/-! ## What a later query finds -/

/-- A run of the store keeps the decisions it finds. -/
theorem store_decisions {a a' : StepSystem.Called CallId DecisionStore StoreRequest StoreAnswer}
    {requests : List (CallId × StoreRequest)} (hr : ((decisionStore naive).calls CallId).run a requests = some a') :
    a.object.decisions <+: a'.object.decisions := by
  induction requests generalizing a with
  | nil =>
    cases hr
    exact List.prefix_refl _
  | cons request requests ih =>
    obtain ⟨b, hb, hr⟩ := StepSystem.run_cons hr
    obtain ⟨-, rfl⟩ := StepSystem.AtomicObject.calls_step hb
    refine List.IsPrefix.trans ?_ (ih hr)
    simp only [decisionStore]
    cases request.2 with
    | query query => exact List.prefix_refl _
    | record call now =>
      simp only [DecisionStore.decide]
      split
      · exact List.prefix_append _ _
      · split
        · exact List.prefix_refl _
        · exact List.prefix_refl _

/-- A query that a run of the store answers is answered on decisions that the run passes through. -/
theorem query_answer {a a' : StepSystem.Called CallId DecisionStore StoreRequest StoreAnswer}
    {requests : List (CallId × StoreRequest)} (hr : ((decisionStore naive).calls CallId).run a requests = some a') {k : CallId}
    {query : Query} {answer : StoreAnswer} (hn : a.performed k = none) (hd : a'.performed k = some (.query query, answer)) :
    ∃ rows, a.object.decisions <+: rows ∧ answer = .selected (query.select naive rows) := by
  induction requests generalizing a with
  | nil =>
    cases hr
    rw [hn] at hd
    cases hd
  | cons request requests ih =>
    obtain ⟨b, hb, hr⟩ := StepSystem.run_cons hr
    have hone : ((decisionStore naive).calls CallId).run a [request] = some b := by simp only [StepSystem.run, hb, Option.bind_some]
    have hgrown := store_decisions hone
    obtain ⟨-, rfl⟩ := StepSystem.AtomicObject.calls_step hb
    by_cases hk : k = request.1
    · -- this is the request, and its answer stays
      subst hk
      have hself := StepSystem.AtomicObject.performed_mono hr (Function.update_self request.1 (some _) a.performed)
      rw [hself] at hd
      injection hd with hd
      injection hd with hrequest hanswer
      rw [hrequest] at hanswer
      exact ⟨_, List.prefix_refl _, hanswer.symm⟩
    · obtain ⟨rows, hrows, hanswer⟩ := ih hr ((Function.update_of_ne hk ..).trans hn)
      exact ⟨rows, hgrown.trans hrows, hanswer⟩

/-- A decision that is found is found among more rows. -/
theorem getTransaction_grown {rows rows' : List TransactionRecord} {transactionId : Uuid} {record : TransactionRecord}
    (h : getTransaction rows transactionId = some record) (hr : rows <+: rows') :
    getTransaction rows' transactionId = some record := by
  obtain ⟨more, rfl⟩ := hr
  unfold getTransaction at *
  rw [List.find?_append, h]
  rfl

/-- What a call that has returned says of the row of its transaction. -/
theorem returned_row {data : Position → TransactionData} {s : DatabaseState} (h : DecisionsInv data s.decisions) {i : ℕ}
    {call : RecordCall} {result : RecordResult} (hp : s.decisions.phase i = .returned call result) :
    ∃ record, getTransaction s.rows call.decision.transactionId = some record ∧
      ((result = ⟨.evaluated, call.decision⟩ ∧ ∃ now, record = transactionRecord call.decision now) ∨
        result = ⟨.duplicate, decisionFromRecord record⟩) := by
  have hknown := h.known i
  rw [hp] at hknown
  obtain ⟨hres, hmade, -⟩ := hknown
  unfold RecordResult.Known at hres
  have hfind : ∀ t ∈ s.decisions.transactions.rows, t.key = call.decision.transactionId →
      getTransaction s.rows call.decision.transactionId = some t.record := by
    intro t ht hk
    rw [getTransaction_rows]
    cases hf : s.decisions.find call.decision.transactionId with
    | none => exact absurd hk (DecisionsAux.find_none hf t ht)
    | some existing =>
      obtain ⟨hmem, hkey⟩ := DecisionsAux.find_some hf
      rw [h.keyedT.eq_of_key hmem ht (hkey.trans hk.symm)]
      rfl
  cases ho : result.outcome with
  | evaluated =>
    rw [ho] at hres
    obtain ⟨t, ht, hm⟩ := hmade ho
    refine ⟨t.record, hfind t ht (DecisionsAux.madeBy_key hm), Or.inl ⟨?_, ?_⟩⟩
    · rw [← ho, ← hres]
    · obtain ⟨now, rfl⟩ := hm
      exact ⟨now, rfl⟩
  | duplicate =>
    rw [ho] at hres
    obtain ⟨t, ht, hk, -, hdec⟩ := hres
    refine ⟨t.record, hfind t ht hk, Or.inr ?_⟩
    rw [← ho, ← hdec]

end StoreAux

/-- Once a call of `record_decision` has returned, every later `get_transaction` finds its transaction, whatever else runs, and finds
the decision that the call returned. -/
theorem recorded_decision_found {naive : NaiveTimes} {data : Position → TransactionData} {s t u : DatabaseState}
    {before after : List DatabaseEvent} (hs : (database naive data).start s) (ht : (database naive data).run s before = some t)
    (hu : (database naive data).run t after = some u)
    {i j : ℕ} {call : RecordCall} {result : RecordResult} {selected : Selected}
    (hreturned : t.decisions.phase i = .returned call result) (hlater : t.queries j = .absent)
    (hread : u.queries j = .returned (.transaction call.decision.transactionId) selected) :
    ∃ record, selected = .transaction (some record) ∧
      ((result = ⟨.evaluated, call.decision⟩ ∧ ∃ now, record = transactionRecord call.decision now) ∨
        result = ⟨.duplicate, decisionFromRecord record⟩) := by
  obtain ⟨record, hrecord, hresult⟩ := returned_row (inv_reachable (StepSystem.Reachable.run (.start hs) ht)) hreturned
  refine ⟨record, ?_, hresult⟩
  obtain ⟨a, ha, hrel⟩ := (simulation naive data).start s hs
  obtain ⟨b, hb, hrel⟩ := (simulation naive data).run (.start hs) (.start ha) hrel ht
  obtain ⟨c, hc, hrel'⟩ := (simulation naive data).run (StepSystem.Reachable.run (.start hs) ht)
    (StepSystem.Reachable.run (.start ha) hb) hrel hu
  -- the store answered the query after the call, on decisions that include the call's
  have hnone : b.performed (.inr j) = none := by simpa only [hlater, QueryPhase.Performed] using hrel.queries j
  have hdone := hrel'.queries j
  rw [hread] at hdone
  obtain ⟨rows, hrows, hanswer⟩ := query_answer hc hnone hdone
  rw [hrel.decisions] at hrows
  have hfound := getTransaction_grown hrecord hrows
  injection hanswer with hanswer
  rw [hanswer]
  simp only [Query.select, hfound]

open DecisionsExample in
/-- A duplicate is recorded and read back: the decision that is found is the first one. -/
theorem recorded_decision_found_duplicate : ∃ t u result record,
    (database some data).run ⟨.empty, fun _ => .absent⟩ (events.map .record) = some t ∧
    (database some data).run t [.query 0 (.transaction ⟨7⟩), .select 0] = some u ∧
    t.decisions.phase 1 = .returned ⟨decision "ZAR" 40, provenance 1⟩ result ∧ result.outcome = .duplicate ∧
    u.queries 0 = .returned (.transaction ⟨7⟩) (.transaction (some record)) ∧ result.decision = decisionFromRecord record := by
  have hr : ((database some data).run ⟨.empty, fun _ => .absent⟩ (events.map .record)).map (fun s => s.decisions.phase 1) =
      some (.returned ⟨decision "ZAR" 40, provenance 1⟩ ⟨.duplicate, (transactionRecord (decision "ZAR" 0) 5).toTransactionDecision⟩) :=
    rfl
  obtain ⟨t, ht, hphase⟩ := Option.map_eq_some_iff.mp hr
  have habsent : t.queries 0 = .absent := by
    have hq : ((database some data).run ⟨.empty, fun _ => .absent⟩ (events.map .record)).map (fun s => s.queries 0) = some .absent := rfl
    rw [ht] at hq
    exact Option.some.inj hq
  obtain ⟨u, hu, hread⟩ : ∃ u, (database some data).run t [.query 0 (.transaction ⟨7⟩), .select 0] = some u ∧
      u.queries 0 = .returned (.transaction ⟨7⟩) ((Query.transaction ⟨7⟩).select some t.rows) := by
    simp only [StepSystem.run, database, databaseStep, habsent, Option.bind_some, Function.update_self]
    refine ⟨_, rfl, ?_⟩
    simp only [Function.update_self, DatabaseState.rows]
  obtain ⟨record, hselected, hresult⟩ := recorded_decision_found rfl ht hu hphase habsent hread
  rcases hresult with ⟨hevaluated, -⟩ | hduplicate
  · cases hevaluated
  · refine ⟨t, u, _, record, ht, hu, hphase, rfl, ?_, congrArg RecordResult.decision hduplicate⟩
    rw [← hselected]
    exact hread

end FraudDetection
