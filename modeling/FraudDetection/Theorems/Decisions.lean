import FraudDetection.Decisions

/-!
# First decision wins

Every call of `record_decision` inserts into two tables with different keys, and either insert may do nothing. The two tables
agree because a history row of a position stands only where the transaction of that position is stored: a call that has just
inserted its transaction finds its position free, and its audit row and its decision are committed together.
-/

namespace FraudDetection

/-- The columns of a row of `transactions` that say what was decided. -/
def TransactionRecord.decisionColumns (t : TransactionRecord) : ℕ × Verdict × Bool × List String × String × String :=
  (t.riskScore, t.verdict, t.isFraud, t.triggeredRules, t.rulesVersion, t.rulesHash)

/-- The columns of a history row that say what was decided. -/
def TransactionHistoryRecord.decisionColumns (h : TransactionHistoryRecord) :
    ℕ × Verdict × Bool × List String × String × String :=
  (h.riskScore, h.verdict, h.isFraud, h.triggeredRules, h.rulesVersion, h.rulesHash)

/-- Two decisions differ in user, amount, currency, category or time. -/
def TransactionDecision.Differs (left right : TransactionDecision) : Prop :=
  left.userId ≠ right.userId ∨ left.amount.value.toRat ≠ right.amount.value.toRat ∨ left.currency ≠ right.currency ∨
    left.category ≠ right.category ∨ left.occurredAt ≠ right.occurredAt

/-- A row holds the decision of a call. -/
def StoredDecision.MadeBy (t : StoredDecision) (i : ℕ) (call : RecordCall) : Prop :=
  ∃ now, t = ⟨transactionRecord call.decision now, i, call.provenance⟩

namespace RecordPhase

/-- The arguments of a call in a phase. -/
def call? : RecordPhase → Option RecordCall
  | .absent => none
  | .called call | .present call | .decided call _ | .written call _ | .returned call _ | .raised call _ => some call

/-- A call in this phase may have committed. -/
def MayHaveRows : RecordPhase → Prop
  | .returned _ _ | .raised _ .outage => True
  | _ => False

end RecordPhase

/-- What a result says of its call and of the committed rows. -/
def RecordResult.Known (call : RecordCall) (rows : List StoredDecision) (result : RecordResult) : Prop :=
  match result.outcome with
  | .evaluated => result.decision = call.decision
  | .duplicate => ∃ t ∈ rows, t.key = call.decision.transactionId ∧ t.record.data = call.decision.data ∧
      result.decision = decisionFromRecord t.record

/-- What a phase of a call says of the committed rows. -/
def RecordPhase.Known (i : ℕ) (rows : List StoredDecision) (audit : List StoredHistory) : RecordPhase → Prop
  | .absent | .called _ => True
  | .present call => ∃ t ∈ rows, t.key = call.decision.transactionId
  | .decided call result | .written call result => result.Known call rows
  | .returned call result => result.Known call rows ∧ (result.outcome = .evaluated → ∃ t ∈ rows, t.MadeBy i call) ∧
      ∃ h ∈ audit, h.key = call.provenance.position
  | .raised call .conflictingDuplicate =>
      ∃ t ∈ rows, t.key = call.decision.transactionId ∧ t.record.Differs call.decision
  | .raised _ .attributeError => False
  | .raised _ _ => True

/-- The uncommitted row of a call in `transactions`. -/
def RecordPhase.OwnDecision (i : ℕ) (own : List StoredDecision) : RecordPhase → Prop
  | .decided call result | .written call result =>
    match result.outcome with
    | .evaluated => ∃ t : StoredDecision, own = [t] ∧ t.MadeBy i call
    | .duplicate => own = []
  | _ => own = []

/-- The audit row of a result. -/
def auditRow (i : ℕ) (call : RecordCall) (result : RecordResult) : StoredHistory :=
  ⟨historyValues result.decision call.provenance result.outcome call.decision.correlationId, i⟩

/-- The uncommitted row of a call in `transaction_history`. It has none after its last statement only where the row of its
position is committed, and then it has not inserted its decision either. -/
def RecordPhase.OwnHistory (i : ℕ) (audit own : List StoredHistory) : RecordPhase → Prop
  | .written call result => own = [auditRow i call result] ∨
      (own = [] ∧ result.outcome = .duplicate ∧ ∃ h ∈ audit, h.key = call.provenance.position)
  | _ => own = []

/-- What holds in every reachable state: how far each call is, what the tables hold of it, and how the tables agree. -/
structure DecisionsInv (data : Position → TransactionData) (s : DecisionsState) : Prop where
  keyedT : s.transactions.Keyed StoredDecision.key
  keyedH : s.history.Keyed StoredHistory.key
  ownT : ∀ i, (s.phase i).OwnDecision i (s.transactions.own i)
  ownH : ∀ i, (s.phase i).OwnHistory i s.history.rows (s.history.own i)
  sent : ∀ i call, (s.phase i).call? = some call → call.decision.data = data call.provenance.position
  known : ∀ i, (s.phase i).Known i s.transactions.rows s.history.rows
  made : ∀ t ∈ s.transactions.rows, (s.phase t.call).MayHaveRows ∧
    (∃ call, (s.phase t.call).call? = some call ∧ t.MadeBy t.call call) ∧
    ∃ h ∈ s.history.rows, h.call = t.call ∧ h.record.transactionId = t.key
  audited : ∀ h ∈ s.history.rows, (s.phase h.call).MayHaveRows ∧ h.record.transactionId = (data h.key).transactionId ∧
    ∃ t ∈ s.transactions.rows, t.key = h.record.transactionId ∧ h.record.decisionColumns = t.record.decisionColumns ∧
      (h.record.outcome = .evaluated ↔ h.call = t.call)
  one : (s.history.rows.map (·.call)).Nodup

namespace DecisionsAux

/-! ## Rows and decisions -/

@[simp] theorem transactionRecord_data (decision : TransactionDecision) (now : Timestamp) :
    (transactionRecord decision now).data = decision.data := by
  simp [transactionRecord, TransactionDecision.data]

theorem madeBy_key {t : StoredDecision} {i : ℕ} {call : RecordCall} (h : t.MadeBy i call) :
    t.key = call.decision.transactionId := by
  obtain ⟨now, rfl⟩ := h
  rfl

/-- `_same_transaction` fails on decisions that differ, and only on them. -/
theorem sameTransaction_iff (left right : TransactionDecision) : sameTransaction left right = true ↔ ¬left.Differs right := by
  unfold sameTransaction TransactionDecision.Differs
  simp only [Bool.and_eq_true, decide_eq_true_eq, Decimal.eqv_iff]
  tauto

/-- Of one transaction, decisions that do not differ carry the same data. -/
theorem data_eq {left right : TransactionDecision} (hid : left.transactionId = right.transactionId)
    (h : ¬left.Differs right) : left.data = right.data := by
  unfold TransactionDecision.Differs at h
  push Not at h
  obtain ⟨huser, hamount, hcurrency, hcategory, htime⟩ := h
  unfold TransactionDecision.data
  have hu : left.amount.units = right.amount.units :=
    (Quantity.eqv_iff _ _).mp ((Decimal.eqv_iff _ _).mpr hamount)
  rw [hid, huser, hu, hcurrency, hcategory, htime]

/-- The row of a decision does not differ from it. -/
theorem stored_not_differs (decision : TransactionDecision) (now : Timestamp) :
    ¬(transactionRecord decision now).Differs decision := by
  unfold TransactionDecision.Differs transactionRecord
  have hv : decision.amount.stored.value.toRat = decision.amount.value.toRat := decision.amount.toQuantity.stored_toRat
  simp [hv]

/-- Decisions with the same data do not differ. -/
theorem not_differs_of_data {left right : TransactionDecision} (h : left.data = right.data) : ¬left.Differs right := by
  unfold TransactionDecision.data at h
  injection h with hid huser hamount hcurrency hcategory htime
  have hv : left.amount.value.toRat = right.amount.value.toRat :=
    (Decimal.eqv_iff _ _).mp ((Quantity.eqv_iff _ _).mpr hamount)
  unfold TransactionDecision.Differs
  simp [huser, hv, hcurrency, hcategory, htime]

theorem find_some {s : DecisionsState} {id : Uuid} {t : StoredDecision} (h : s.find id = some t) :
    t ∈ s.transactions.rows ∧ t.key = id :=
  ⟨List.mem_of_find?_eq_some h, by simpa [StoredDecision.key] using List.find?_some h⟩

theorem find_none {s : DecisionsState} {id : Uuid} (h : s.find id = none) : ∀ t ∈ s.transactions.rows, t.key ≠ id := by
  intro t ht hk
  have := List.find?_eq_none.mp h t ht
  exact this (by simpa [StoredDecision.key] using hk)

/-- What a result says stays true when rows are committed. -/
theorem result_known_mono {call : RecordCall} {rows rows' : List StoredDecision} {result : RecordResult}
    (h : result.Known call rows) (hr : ∀ t ∈ rows, t ∈ rows') : result.Known call rows' := by
  unfold RecordResult.Known at *
  split
  · rename_i ho
    rw [ho] at h
    exact h
  · rename_i ho
    rw [ho] at h
    obtain ⟨t, ht, hk⟩ := h
    exact ⟨t, hr t ht, hk⟩

/-- What a phase says stays true when rows are committed. -/
theorem known_mono {i : ℕ} {rows rows' : List StoredDecision} {audit audit' : List StoredHistory} {p : RecordPhase}
    (h : p.Known i rows audit) (hr : ∀ t ∈ rows, t ∈ rows') (ha : ∀ h ∈ audit, h ∈ audit') : p.Known i rows' audit' := by
  cases p with
  | absent => trivial
  | called call => trivial
  | present call =>
    obtain ⟨t, ht, hk⟩ := h
    exact ⟨t, hr t ht, hk⟩
  | decided call result => exact result_known_mono h hr
  | written call result => exact result_known_mono h hr
  | returned call result =>
    obtain ⟨hres, he, a, ham, hak⟩ := h
    refine ⟨result_known_mono hres hr, fun ho => ?_, a, ha a ham, hak⟩
    obtain ⟨t, ht, hm⟩ := he ho
    exact ⟨t, hr t ht, hm⟩
  | raised call error =>
    cases error with
    | conflictingDuplicate =>
      obtain ⟨t, ht, hk⟩ := h
      exact ⟨t, hr t ht, hk⟩
    | outage => trivial
    | refused => trivial
    | attributeError => exact h

theorem ownHistory_mono {i : ℕ} {audit audit' own : List StoredHistory} {p : RecordPhase}
    (h : p.OwnHistory i audit own) (ha : ∀ h ∈ audit, h ∈ audit') : p.OwnHistory i audit' own := by
  cases p with
  | written call result =>
    refine h.imp id ?_
    rintro ⟨ho, hd, a, ham, hak⟩
    exact ⟨ho, hd, a, ha a ham, hak⟩
  | _ => exact h

/-! ## The steps of a call -/

/-- What a step of a call does. -/
inductive Step (data : Position → TransactionData) (s : DecisionsState) : RecordEvent → DecisionsState → Prop where
  | begin (i : ℕ) (call : RecordCall) (hp : s.phase i = .absent)
      (hd : call.decision.data = data call.provenance.position) : Step data s (.begin i call) (s.setPhase i (.called call))
  | present (i : ℕ) (now : Timestamp) (call : RecordCall) (hp : s.phase i = .called call)
      (hc : s.transactions.insert StoredDecision.key i ⟨transactionRecord call.decision now, i, call.provenance⟩ =
        .conflict) : Step data s (.insertDecision i now) (s.setPhase i (.present call))
  | inserted (i : ℕ) (now : Timestamp) (call : RecordCall) (table : UniqueTable StoredDecision)
      (hp : s.phase i = .called call) (hf : call.decision.fits)
      (ht : s.transactions.insert StoredDecision.key i ⟨transactionRecord call.decision now, i, call.provenance⟩ =
        .inserted table) :
      Step data s (.insertDecision i now) (s.withTransactions table i (.decided call ⟨.evaluated, call.decision⟩))
  | duplicate (i : ℕ) (call : RecordCall) (existing : StoredDecision) (hp : s.phase i = .present call)
      (hf : s.find call.decision.transactionId = some existing) (hs : ¬existing.record.Differs call.decision) :
      Step data s (.selectExisting i) (s.setPhase i (.decided call ⟨.duplicate, decisionFromRecord existing.record⟩))
  | skipped (i : ℕ) (call : RecordCall) (result : RecordResult) (hp : s.phase i = .decided call result)
      (hc : s.history.insert StoredHistory.key i (auditRow i call result) = .conflict) :
      Step data s (.insertHistory i) (s.setPhase i (.written call result))
  | audited (i : ℕ) (call : RecordCall) (result : RecordResult) (table : UniqueTable StoredHistory)
      (hp : s.phase i = .decided call result)
      (ht : s.history.insert StoredHistory.key i (auditRow i call result) = .inserted table) :
      Step data s (.insertHistory i) (s.withHistory table i (.written call result))
  | commit (i : ℕ) (acknowledged : Bool) (call : RecordCall) (result : RecordResult) (hp : s.phase i = .written call result) :
      Step data s (.commit i acknowledged)
        (s.commit i (if acknowledged then .returned call result else .raised call .outage))
  | conflicting (i : ℕ) (call : RecordCall) (existing : StoredDecision) (hp : s.phase i = .present call)
      (hf : s.find call.decision.transactionId = some existing) (hs : existing.record.Differs call.decision) :
      Step data s (.selectExisting i) (s.raise i call .conflictingDuplicate)
  | missing (i : ℕ) (call : RecordCall) (hp : s.phase i = .present call)
      (hf : s.find call.decision.transactionId = none) :
      Step data s (.selectExisting i) (s.raise i call .attributeError)
  | failed (e : RecordEvent) (i : ℕ) (call : RecordCall) (error : RecordError) (hc : (s.phase i).call? = some call)
      (hm : ¬(s.phase i).MayHaveRows) (he : error = .outage ∨ error = .refused) (hn : ∀ j a, e ≠ .commit j a) :
      Step data s e (s.raise i call error)

/-- Every step of the system is one of these. -/
theorem step_of {data : Position → TransactionData} {s s' : DecisionsState} {e : RecordEvent}
    (h : recordStep data s e = some s') : Step data s e s' := by
  cases e with
  | begin i call =>
    simp only [recordStep] at h
    split at h
    · rename_i hp
      split at h
      · rename_i hd
        cases h
        exact .begin i call hp hd
      · cases h
    · cases h
  | insertDecision i now =>
    simp only [recordStep] at h
    split at h
    · rename_i call hp
      split at h
      · rename_i hf
        split at h
        · cases h
        · rename_i hc
          cases h
          exact .present i now call hp hc
        · rename_i table ht
          cases h
          exact .inserted i now call table hp hf ht
      · cases h
        exact .failed _ i call .refused (by rw [hp]; rfl) (by rw [hp]; exact id) (Or.inr rfl) (by simp)
    · cases h
  | selectExisting i =>
    simp only [recordStep] at h
    split at h
    · rename_i call hp
      split at h
      · rename_i hf
        cases h
        exact .missing i call hp hf
      · rename_i existing hf
        split at h
        · rename_i hs
          cases h
          exact .duplicate i call existing hp hf ((sameTransaction_iff _ _).mp hs)
        · rename_i hs
          cases h
          exact .conflicting i call existing hp hf (not_not.mp fun hd => hs ((sameTransaction_iff _ _).mpr hd))
    · cases h
  | insertHistory i =>
    simp only [recordStep] at h
    split at h
    · rename_i call result hp
      split at h
      · split at h
        · cases h
        · rename_i hc
          cases h
          exact .skipped i call result hp hc
        · rename_i table ht
          cases h
          exact .audited i call result table hp ht
      · cases h
        exact .failed _ i call .refused (by rw [hp]; rfl) (by rw [hp]; exact id) (Or.inr rfl) (by simp)
    · cases h
  | commit i acknowledged =>
    simp only [recordStep] at h
    split at h
    · rename_i call result hp
      cases h
      exact .commit i acknowledged call result hp
    · cases h
  | fail i =>
    simp only [recordStep] at h
    split at h
    all_goals
      first
      | (rename_i hp
         cases h
         exact .failed _ i _ .outage (by rw [hp]; rfl) (by rw [hp]; exact id) (Or.inl rfl) (by simp))
      | cases h

/-! ## The invariant -/

/-- A step of a call that commits nothing keeps the invariant when the phase it leads to agrees with what the call has open. -/
theorem inv_open {data : Position → TransactionData} {s : DecisionsState} {i : ℕ} {q : RecordPhase}
    {transactions : UniqueTable StoredDecision} {history : UniqueTable StoredHistory} (h : DecisionsInv data s)
    (hm : ¬(s.phase i).MayHaveRows) (ht : transactions.rows = s.transactions.rows) (hh : history.rows = s.history.rows)
    (hkt : transactions.Keyed StoredDecision.key) (hkh : history.Keyed StoredHistory.key)
    (hot : ∀ j, j ≠ i → transactions.own j = s.transactions.own j) (hoh : ∀ j, j ≠ i → history.own j = s.history.own j)
    (hownT : q.OwnDecision i (transactions.own i)) (hownH : q.OwnHistory i s.history.rows (history.own i))
    (hsent : ∀ call, q.call? = some call → call.decision.data = data call.provenance.position)
    (hknown : q.Known i s.transactions.rows s.history.rows) :
    DecisionsInv data ⟨transactions, history, Function.update s.phase i q⟩ := by
  have hself : Function.update s.phase i q i = q := Function.update_self ..
  have hne : ∀ j, j ≠ i → Function.update s.phase i q j = s.phase j := fun j hj => Function.update_of_ne hj ..
  -- the calls that have rows are other calls
  have hold : ∀ j, (s.phase j).MayHaveRows → Function.update s.phase i q j = s.phase j := by
    intro j hj
    refine hne j ?_
    rintro rfl
    exact hm hj
  constructor
  · exact hkt
  · exact hkh
  · intro j
    by_cases hji : j = i
    · subst hji
      simp only [hself]
      exact hownT
    · simp only [hne j hji, hot j hji]
      exact h.ownT j
  · intro j
    by_cases hji : j = i
    · subst hji
      simp only [hself, hh]
      exact hownH
    · simp only [hne j hji, hoh j hji, hh]
      exact h.ownH j
  · intro j call hc
    by_cases hji : j = i
    · subst hji
      simp only [hself] at hc
      exact hsent call hc
    · simp only [hne j hji] at hc
      exact h.sent j call hc
  · intro j
    simp only [ht, hh]
    by_cases hji : j = i
    · subst hji
      simp only [hself]
      exact hknown
    · simp only [hne j hji]
      exact h.known j
  · intro t htm
    simp only [ht] at htm
    have hmade := h.made t htm
    simp only [hold _ hmade.1, hh]
    exact hmade
  · intro a ham
    simp only [hh] at ham
    have haud := h.audited a ham
    simp only [hold _ haud.1, ht]
    exact haud
  · simp only [hh]
    exact h.one

/-- A step of a call that leaves both tables as they are. -/
theorem inv_setPhase {data : Position → TransactionData} {s : DecisionsState} {i : ℕ} {q : RecordPhase}
    (h : DecisionsInv data s) (hm : ¬(s.phase i).MayHaveRows) (hownT : q.OwnDecision i (s.transactions.own i))
    (hownH : q.OwnHistory i s.history.rows (s.history.own i))
    (hsent : ∀ call, q.call? = some call → call.decision.data = data call.provenance.position)
    (hknown : q.Known i s.transactions.rows s.history.rows) : DecisionsInv data (s.setPhase i q) :=
  inv_open h hm rfl rfl h.keyedT h.keyedH (fun _ _ => rfl) (fun _ _ => rfl) hownT hownH hsent hknown

/-- An exception leaves no open row behind. -/
theorem inv_raise {data : Position → TransactionData} {s : DecisionsState} {i : ℕ} {call : RecordCall} {error : RecordError}
    (h : DecisionsInv data s) (hm : ¬(s.phase i).MayHaveRows) (hc : (s.phase i).call? = some call)
    (hknown : (RecordPhase.raised call error).Known i s.transactions.rows s.history.rows) :
    DecisionsInv data (s.raise i call error) := by
  refine inv_open h hm rfl rfl (h.keyedT.rollback i) (h.keyedH.rollback i) (fun j hj => UniqueTable.own_rollback_other hj)
    (fun j hj => UniqueTable.own_rollback_other hj) (UniqueTable.own_rollback_self _ _) (UniqueTable.own_rollback_self _ _) ?_
    hknown
  intro call' hc'
  cases hc'
  exact h.sent i call hc

/-- A call that has just inserted its decision finds its position free. -/
theorem position_free {data : Position → TransactionData} {s : DecisionsState} {i : ℕ} {call : RecordCall}
    {result : RecordResult} (h : DecisionsInv data s) (hp : s.phase i = .decided call result)
    (ho : result.outcome = .evaluated) : ∀ a ∈ s.history.rows, a.key ≠ call.provenance.position := by
  intro a ham hk
  obtain ⟨-, hid, t, htm, htk, -⟩ := h.audited a ham
  have hown := h.ownT i
  rw [hp] at hown
  simp only [RecordPhase.OwnDecision, ho] at hown
  obtain ⟨t', hown, hmade⟩ := hown
  have hm : t' ∈ s.transactions.own i := by
    rw [hown]
    exact List.mem_singleton_self t'
  refine h.keyedT.ne_of_own htm hm ?_
  rw [htk, hid, hk, madeBy_key hmade, ← h.sent i call (by rw [hp]; rfl)]
  rfl

/-- The audit row is left out only where it stands already, and never for a decision just inserted. -/
theorem skipped_duplicate {data : Position → TransactionData} {s : DecisionsState} {i : ℕ} {call : RecordCall}
    {result : RecordResult} (h : DecisionsInv data s) (hp : s.phase i = .decided call result)
    (hc : s.history.insert StoredHistory.key i (auditRow i call result) = .conflict) :
    s.history.own i = [] ∧ result.outcome = .duplicate ∧ ∃ a ∈ s.history.rows, a.key = call.provenance.position := by
  have hown := h.ownH i
  rw [hp] at hown
  have hnil : s.history.own i = [] := hown
  have hfound : ∃ a ∈ s.history.rows, a.key = call.provenance.position := by
    rcases UniqueTable.insert_conflict hc with ha | ⟨a, ha, -⟩
    · exact ha
    · rw [hnil] at ha
      cases ha
  refine ⟨hnil, ?_, hfound⟩
  cases ho : result.outcome with
  | duplicate => rfl
  | evaluated =>
    obtain ⟨a, ham, hk⟩ := hfound
    exact absurd hk (position_free h hp ho a ham)

/-- The audit row of a call agrees with the stored row its result comes from. -/
theorem auditRow_columns {i : ℕ} {call : RecordCall} {result : RecordResult} {t : StoredDecision}
    (h : result.decision.transactionId = t.key)
    (hc : result.decision.riskScore = t.record.riskScore ∧ result.decision.verdict = t.record.verdict ∧
      result.decision.isFraud = t.record.isFraud ∧ result.decision.triggeredRules = t.record.triggeredRules ∧
      result.decision.rulesVersion = t.record.rulesVersion ∧ result.decision.rulesHash = t.record.rulesHash) :
    t.key = (auditRow i call result).record.transactionId ∧
      (auditRow i call result).record.decisionColumns = t.record.decisionColumns := by
  refine ⟨h.symm, ?_⟩
  obtain ⟨h1, h2, h3, h4, h5, h6⟩ := hc
  unfold auditRow historyValues TransactionHistoryRecord.decisionColumns TransactionRecord.decisionColumns
  simp only [h1, h2, h3, h4, h5, h6]

/-- Once a call has committed, the row its result comes from is stored, and the call inserted it exactly if it says so. -/
theorem stored_row {data : Position → TransactionData} {s : DecisionsState} {i : ℕ} {call : RecordCall}
    {result : RecordResult} (h : DecisionsInv data s) (hp : s.phase i = .written call result) :
    ∃ t ∈ (s.transactions.commit i).rows, t.key = call.decision.transactionId ∧ (result.outcome = .evaluated ↔ t.call = i) ∧
      (result.outcome = .evaluated → t.MadeBy i call) ∧
      t.key = (auditRow i call result).record.transactionId ∧
      (auditRow i call result).record.decisionColumns = t.record.decisionColumns := by
  have hknown := h.known i
  have hown := h.ownT i
  rw [hp] at hknown hown
  simp only [RecordPhase.Known, RecordResult.Known] at hknown
  simp only [RecordPhase.OwnDecision] at hown
  cases ho : result.outcome with
  | evaluated =>
    rw [ho] at hknown hown
    obtain ⟨t, hown, hmade⟩ := hown
    have hkey := madeBy_key hmade
    obtain ⟨now, rfl⟩ := hmade
    refine ⟨_, ?_, hkey, ⟨fun _ => rfl, fun _ => rfl⟩, fun _ => ⟨now, rfl⟩, ?_⟩
    · change _ ∈ s.transactions.rows ++ s.transactions.own i
      rw [hown]
      exact List.mem_append_right _ (List.mem_singleton_self _)
    · exact auditRow_columns (by rw [hknown]; rfl) (by rw [hknown]; exact ⟨rfl, rfl, rfl, rfl, rfl, rfl⟩)
  | duplicate =>
    rw [ho] at hknown
    obtain ⟨t, htm, hkey, -, hdec⟩ := hknown
    refine ⟨t, List.mem_append_left _ htm, hkey, ?_, nofun, ?_⟩
    · refine ⟨nofun, ?_⟩
      rintro rfl
      have hm := (h.made t htm).1
      rw [hp] at hm
      exact hm.elim
    · exact auditRow_columns (by rw [hdec]; rfl) (by rw [hdec]; exact ⟨rfl, rfl, rfl, rfl, rfl, rfl⟩)

/-- A commit stores the decision of a call and its audit row together. -/
theorem inv_commit {data : Position → TransactionData} {s : DecisionsState} {i : ℕ} {call : RecordCall}
    {result : RecordResult} {q : RecordPhase} (h : DecisionsInv data s) (hp : s.phase i = .written call result)
    (hq : q = .returned call result ∨ q = .raised call .outage) : DecisionsInv data (s.commit i q) := by
  have hself : Function.update s.phase i q i = q := Function.update_self ..
  have hne : ∀ j, j ≠ i → Function.update s.phase i q j = s.phase j := fun j hj => Function.update_of_ne hj ..
  have hold : ∀ j, (s.phase j).MayHaveRows → j ≠ i := by
    rintro j hj rfl
    rw [hp] at hj
    exact hj
  have hqm : q.MayHaveRows := by rcases hq with rfl | rfl <;> trivial
  have hqc : q.call? = some call := by rcases hq with rfl | rfl <;> rfl
  have hsent := h.sent i call (by rw [hp]; rfl)
  have hownT := h.ownT i
  have hownH := h.ownH i
  have hknown := h.known i
  rw [hp] at hownT hownH hknown
  have hrows : ∀ t ∈ s.transactions.rows, t ∈ (s.transactions.commit i).rows := fun t ht => List.mem_append_left _ ht
  have haudit : ∀ a ∈ s.history.rows, a ∈ (s.history.commit i).rows := fun a ha => List.mem_append_left _ ha
  -- what the call had open are the rows of its decision and of its result
  have hnewT : ∀ t ∈ s.transactions.own i, t.MadeBy i call ∧ result.outcome = .evaluated := by
    intro t ht
    simp only [RecordPhase.OwnDecision] at hownT
    cases ho : result.outcome with
    | evaluated =>
      rw [ho] at hownT
      obtain ⟨t', hown, hmade⟩ := hownT
      rw [hown, List.mem_singleton] at ht
      exact ⟨ht ▸ hmade, rfl⟩
    | duplicate =>
      rw [ho] at hownT
      have hnil : s.transactions.own i = [] := hownT
      rw [hnil] at ht
      cases ht
  have hnewH : s.history.own i = [auditRow i call result] ∨ (s.history.own i = [] ∧ result.outcome = .duplicate) := by
    rcases hownH with ho | ⟨ho, hd, -⟩
    · exact Or.inl ho
    · exact Or.inr ⟨ho, hd⟩
  constructor
  · exact h.keyedT.commit i
  · exact h.keyedH.commit i
  · intro j
    by_cases hji : j = i
    · subst hji
      simp only [DecisionsState.commit, hself, UniqueTable.own_commit_self]
      rcases hq with rfl | rfl <;> rfl
    · simp only [DecisionsState.commit, hne j hji, UniqueTable.own_commit_other hji]
      exact h.ownT j
  · intro j
    by_cases hji : j = i
    · subst hji
      simp only [DecisionsState.commit, hself, UniqueTable.own_commit_self]
      rcases hq with rfl | rfl <;> rfl
    · simp only [DecisionsState.commit, hne j hji, UniqueTable.own_commit_other hji]
      exact ownHistory_mono (h.ownH j) haudit
  · intro j call' hc
    by_cases hji : j = i
    · subst hji
      simp only [DecisionsState.commit, hself, hqc, Option.some.injEq] at hc
      exact hc ▸ hsent
    · simp only [DecisionsState.commit, hne j hji] at hc
      exact h.sent j call' hc
  · intro j
    by_cases hji : j = i
    · subst hji
      simp only [DecisionsState.commit, hself]
      rcases hq with rfl | rfl
      · refine ⟨result_known_mono hknown hrows, fun ho => ?_, ?_⟩
        · obtain ⟨t, htm, -, -, hmade, -⟩ := stored_row h hp
          exact ⟨t, htm, hmade ho⟩
        · rcases hownH with ho | ⟨-, -, a, ham, hak⟩
          · refine ⟨auditRow j call result, ?_, rfl⟩
            change _ ∈ s.history.rows ++ s.history.own j
            rw [ho]
            exact List.mem_append_right _ (List.mem_singleton_self _)
          · exact ⟨a, haudit a ham, hak⟩
      · trivial
    · simp only [DecisionsState.commit, hne j hji]
      exact known_mono (h.known j) hrows haudit
  · intro t htm
    change t ∈ s.transactions.rows ++ s.transactions.own i at htm
    simp only [DecisionsState.commit]
    rcases List.mem_append.mp htm with ht | ht
    · obtain ⟨hm, hc, a, ham, hak⟩ := h.made t ht
      rw [hne _ (hold _ hm)]
      exact ⟨hm, hc, a, haudit a ham, hak⟩
    · obtain ⟨hmade, ho⟩ := hnewT t ht
      have hkey := madeBy_key hmade
      have hcall : t.call = i := by
        obtain ⟨now, rfl⟩ := hmade
        rfl
      rw [hcall, hself]
      refine ⟨hqm, ⟨call, hqc, hmade⟩, auditRow i call result, ?_, rfl, ?_⟩
      · rcases hnewH with hown | ⟨-, hd⟩
        · change _ ∈ s.history.rows ++ s.history.own i
          rw [hown]
          exact List.mem_append_right _ (List.mem_singleton_self _)
        · rw [ho] at hd
          cases hd
      · simp only [RecordPhase.Known, RecordResult.Known, ho] at hknown
        rw [hkey, ← hknown]
        rfl
  · intro a ham
    change a ∈ s.history.rows ++ s.history.own i at ham
    simp only [DecisionsState.commit]
    rcases List.mem_append.mp ham with ha | ha
    · obtain ⟨hm, hid, t, htm, hk⟩ := h.audited a ha
      rw [hne _ (hold _ hm)]
      exact ⟨hm, hid, t, hrows t htm, hk⟩
    · have hrow : a = auditRow i call result := by
        rcases hnewH with hown | ⟨hown, -⟩
        · rw [hown] at ha
          exact List.mem_singleton.mp ha
        · rw [hown] at ha
          cases ha
      subst hrow
      obtain ⟨t, htm, hkey, hiff, -, hid, hcols⟩ := stored_row h hp
      have hcall : (auditRow i call result).call = i := rfl
      rw [hcall, hself]
      refine ⟨hqm, ?_, t, htm, hid, hcols, hiff.trans eq_comm⟩
      rw [← hid, hkey]
      change call.decision.data.transactionId = _
      rw [hsent]
      rfl
  · change ((s.history.rows ++ s.history.own i).map (·.call)).Nodup
    rw [List.map_append]
    rcases hnewH with hown | ⟨hown, -⟩
    · rw [hown]
      refine List.nodup_append.mpr ⟨h.one, List.nodup_singleton _, ?_⟩
      intro c hc c' hc'
      obtain ⟨a, ha, rfl⟩ := List.mem_map.mp hc
      rw [List.map_singleton, List.mem_singleton] at hc'
      rw [hc']
      exact hold _ (h.audited a ha).1
    · rw [hown, List.map_nil, List.append_nil]
      exact h.one

/-- Every step keeps the invariant. -/
theorem inv_step {data : Position → TransactionData} {s s' : DecisionsState} {e : RecordEvent} (h : DecisionsInv data s)
    (hs : Step data s e s') : DecisionsInv data s' := by
  cases hs with
  | begin i call hp hd =>
    have hownT := h.ownT i
    have hownH := h.ownH i
    rw [hp] at hownT hownH
    refine inv_setPhase h (by rw [hp]; exact id) hownT hownH ?_ trivial
    intro call' hc
    cases hc
    exact hd
  | present i now call hp hc =>
    have hownT := h.ownT i
    have hownH := h.ownH i
    have hsent := h.sent i call (by rw [hp]; rfl)
    rw [hp] at hownT hownH
    refine inv_setPhase h (by rw [hp]; exact id) hownT hownH (by rintro call' ⟨⟩; exact hsent) ?_
    rcases UniqueTable.insert_conflict hc with ⟨t, ht, hk⟩ | ⟨t, ht, -⟩
    · exact ⟨t, ht, hk⟩
    · have hnil : s.transactions.own i = [] := hownT
      rw [hnil] at ht
      cases ht
  | inserted i now call table hp hf ht =>
    have hownT := h.ownT i
    have hownH := h.ownH i
    have hsent := h.sent i call (by rw [hp]; rfl)
    rw [hp] at hownT hownH
    have hnil : s.transactions.own i = [] := hownT
    have hkeyed := h.keyedT.insert ht
    obtain ⟨-, -, rfl⟩ := UniqueTable.insert_inserted ht
    refine inv_open h (by rw [hp]; exact id) rfl rfl hkeyed h.keyedH (fun j hj => UniqueTable.own_insert_other hj)
      (fun _ _ => rfl) ?_ hownH (by rintro call' ⟨⟩; exact hsent) rfl
    refine ⟨_, ?_, now, rfl⟩
    rw [UniqueTable.own_insert_self, hnil]
    rfl
  | duplicate i call existing hp hf hs =>
    have hownT := h.ownT i
    have hownH := h.ownH i
    have hsent := h.sent i call (by rw [hp]; rfl)
    rw [hp] at hownT hownH
    obtain ⟨hm, hk⟩ := find_some hf
    refine inv_setPhase h (by rw [hp]; exact id) hownT hownH (by rintro call' ⟨⟩; exact hsent) ?_
    exact ⟨existing, hm, hk, data_eq hk hs, rfl⟩
  | skipped i call result hp hc =>
    have hownT := h.ownT i
    have hknown := h.known i
    have hsent := h.sent i call (by rw [hp]; rfl)
    rw [hp] at hownT hknown
    obtain ⟨hnil, hd, ha⟩ := skipped_duplicate h hp hc
    exact inv_setPhase h (by rw [hp]; exact id) hownT (Or.inr ⟨hnil, hd, ha⟩) (by rintro call' ⟨⟩; exact hsent) hknown
  | audited i call result table hp ht =>
    have hownT := h.ownT i
    have hownH := h.ownH i
    have hknown := h.known i
    have hsent := h.sent i call (by rw [hp]; rfl)
    rw [hp] at hownT hownH hknown
    have hnil : s.history.own i = [] := hownH
    have hkeyed := h.keyedH.insert ht
    obtain ⟨-, -, rfl⟩ := UniqueTable.insert_inserted ht
    refine inv_open h (by rw [hp]; exact id) rfl rfl h.keyedT hkeyed (fun _ _ => rfl)
      (fun j hj => UniqueTable.own_insert_other hj) hownT (Or.inl ?_) (by rintro call' ⟨⟩; exact hsent) hknown
    rw [UniqueTable.own_insert_self, hnil]
    rfl
  | commit i acknowledged call result hp =>
    refine inv_commit h hp ?_
    cases acknowledged
    · exact Or.inr rfl
    · exact Or.inl rfl
  | conflicting i call existing hp hf hs =>
    obtain ⟨hm, hk⟩ := find_some hf
    exact inv_raise h (by rw [hp]; exact id) (by rw [hp]; rfl) ⟨existing, hm, hk, hs⟩
  | missing i call hp hf =>
    have hknown := h.known i
    rw [hp] at hknown
    obtain ⟨t, ht, hk⟩ := hknown
    exact absurd hk (find_none hf t ht)
  | failed e i call error hc hm he hn =>
    refine inv_raise h hm hc ?_
    rcases he with rfl | rfl <;> trivial

theorem inv_empty (data : Position → TransactionData) : DecisionsInv data .empty := by
  constructor
  · exact UniqueTable.keyed_ofRows List.nodup_nil
  · exact UniqueTable.keyed_ofRows List.nodup_nil
  · intro i
    rfl
  · intro i
    rfl
  · intro i call hc
    cases hc
  · intro i
    trivial
  · intro t ht
    cases ht
  · intro a ha
    cases ha
  · exact List.nodup_nil

theorem inv_reachable {data : Position → TransactionData} {s : DecisionsState} (h : (decisions data).Reachable s) :
    DecisionsInv data s := by
  refine StepSystem.Reachable.invariant ?_ ?_ h
  · rintro s rfl
    exact inv_empty data
  · intro s e s' hi hs
    exact inv_step hi (step_of hs)

/-- The rows of a reachable table are distinct, as their ids are. -/
theorem records_nodup {data : Position → TransactionData} {s : DecisionsState} (h : (decisions data).Reachable s) :
    (s.transactions.rows.map (·.record)).Nodup := by
  have hk := (inv_reachable h).keyedT
  unfold UniqueTable.Keyed at hk
  rw [List.map_append] at hk
  have hkeys : ((s.transactions.rows.map (·.record)).map (·.transactionId)).Nodup := by
    rw [List.map_map]
    exact List.Nodup.of_append_left hk
  exact List.Nodup.of_map _ hkeys

/-! ## What a run leaves of the tables -/

/-- A call begins once. -/
theorem begin_some {data : Position → TransactionData} {s s' : DecisionsState} {i : ℕ} {call : RecordCall}
    (hs : recordStep data s (.begin i call) = some s') : s.phase i = .absent ∧ s' = s.setPhase i (.called call) := by
  simp only [recordStep] at hs
  split at hs
  · rename_i hp
    split at hs
    · exact ⟨hp, (Option.some.inj hs).symm⟩
    · cases hs
  · cases hs

/-- A step leads to a reachable state. -/
theorem reachable_step {data : Position → TransactionData} {s s' : DecisionsState} {e : RecordEvent}
    (h : (decisions data).Reachable s) (hs : recordStep data s e = some s') : (decisions data).Reachable s' :=
  .step h trivial (show (decisions data).step s e = some s' from hs)

/-- Only a commit changes what is committed, and it adds rows at the end. -/
theorem step_rows {data : Position → TransactionData} {s s' : DecisionsState} {e : RecordEvent} (hs : Step data s e s') :
    (s'.transactions.rows = s.transactions.rows ∧ s'.history.rows = s.history.rows) ∨
      ∃ i a, e = .commit i a ∧ s'.transactions.rows = s.transactions.rows ++ s.transactions.own i ∧
        s'.history.rows = s.history.rows ++ s.history.own i := by
  cases hs with
  | inserted i now call table hp hf ht =>
    obtain ⟨-, -, rfl⟩ := UniqueTable.insert_inserted ht
    exact Or.inl ⟨rfl, rfl⟩
  | audited i call result table hp ht =>
    obtain ⟨-, -, rfl⟩ := UniqueTable.insert_inserted ht
    exact Or.inl ⟨rfl, rfl⟩
  | commit i acknowledged call result hp => exact Or.inr ⟨i, acknowledged, rfl, rfl, rfl⟩
  | _ => exact Or.inl ⟨rfl, rfl⟩

/-- A run keeps the rows it finds. -/
theorem run_rows {data : Position → TransactionData} {s s' : DecisionsState} {events : List RecordEvent}
    (h : (decisions data).Reachable s) (hr : (decisions data).run s events = some s') :
    s.transactions.rows <+: s'.transactions.rows ∧ s.history.rows <+: s'.history.rows := by
  refine StepSystem.Reachable.run_rel
    (R := fun s s' : DecisionsState => s.transactions.rows <+: s'.transactions.rows ∧ s.history.rows <+: s'.history.rows)
    (fun s => ⟨List.prefix_refl _, List.prefix_refl _⟩) ?_ ?_ h hr
  · rintro s t u ⟨h1, h2⟩ ⟨h3, h4⟩
    exact ⟨h1.trans h3, h2.trans h4⟩
  · intro s e s' _ hstep
    rcases step_rows (step_of hstep) with ⟨ht, ha⟩ | ⟨i, a, -, ht, ha⟩
    · rw [ht, ha]
      exact ⟨List.prefix_refl _, List.prefix_refl _⟩
    · rw [ht, ha]
      exact ⟨List.prefix_append _ _, List.prefix_append _ _⟩

/-! ## Exactly one row -/

/-- A list without duplicates in which exactly one element has a property. -/
theorem filter_eq_singleton {α : Type*} {p : α → Prop} [DecidablePred p] {l : List α} {x : α} (hl : l.Nodup) (hx : x ∈ l)
    (hp : p x) (hu : ∀ y ∈ l, p y → y = x) : l.filter (fun y => decide (p y)) = [x] := by
  refine List.perm_singleton.mp ((List.perm_ext_iff_of_nodup (hl.filter _) (List.nodup_singleton x)).mpr ?_)
  intro y
  rw [List.mem_filter, List.mem_singleton, decide_eq_true_eq]
  constructor
  · rintro ⟨hy, hpy⟩
    exact hu y hy hpy
  · rintro rfl
    exact ⟨hx, hp⟩

theorem history_nodup {data : Position → TransactionData} {s : DecisionsState} (h : DecisionsInv data s) :
    s.history.rows.Nodup := List.Nodup.of_map _ h.one

/-- Each position has at most one row, so a position that has a row has exactly one. -/
theorem position_one {data : Position → TransactionData} {s : DecisionsState} (h : DecisionsInv data s) {a : StoredHistory}
    (ha : a ∈ s.history.rows) : s.history.rows.filter (fun b => b.key = a.key) = [a] :=
  filter_eq_singleton (history_nodup h) ha rfl fun _ hb hk => h.keyedH.eq_of_key hb ha hk

/-- The call that stored a transaction is the one whose audit row says so. -/
theorem evaluated_one {data : Position → TransactionData} {s : DecisionsState} (h : DecisionsInv data s) {t : StoredDecision}
    (ht : t ∈ s.transactions.rows) :
    ∃ a, s.history.rows.filter (fun b => b.record.transactionId = t.key ∧ b.record.outcome = .evaluated) = [a] := by
  obtain ⟨-, -, a, ha, hcall, hid⟩ := h.made t ht
  -- the stored row an audit row of this transaction belongs to is this one
  have hrow : ∀ b ∈ s.history.rows, b.record.transactionId = t.key → (b.record.outcome = .evaluated ↔ b.call = t.call) := by
    intro b hb hbk
    obtain ⟨-, -, t', ht', hk', -, hiff⟩ := h.audited b hb
    have heq : t' = t := h.keyedT.eq_of_key ht' ht (hk'.trans hbk)
    exact heq ▸ hiff
  refine ⟨a, filter_eq_singleton (history_nodup h) ha ⟨hid, (hrow a ha hid).mpr hcall⟩ ?_⟩
  rintro b hb ⟨hbk, hbo⟩
  have hbc := (hrow b hb hbk).mp hbo
  exact List.inj_on_of_nodup_map h.one hb ha (hbc.trans hcall.symm)

end DecisionsAux

open DecisionsAux

/-- What the two tables and the calls are worth to each other in a state of any concurrent calls. -/
structure FirstDecisionWins (data : Position → TransactionData) (s : DecisionsState) : Prop where
  /-- A transaction has at most one row. -/
  unique : (s.transactions.rows.map StoredDecision.key).Nodup
  /-- Rows stay as they are, whatever happens next. -/
  appendOnly : ∀ events s', (decisions data).run s events = some s' →
    s.transactions.rows <+: s'.transactions.rows ∧ s.history.rows <+: s'.history.rows
  /-- Each transaction has exactly one history row with outcome `evaluated`. -/
  evaluatedOnce : ∀ t ∈ s.transactions.rows,
    ∃ a, s.history.rows.filter (fun b => b.record.transactionId = t.key ∧ b.record.outcome = .evaluated) = [a]
  /-- Every history row carries the decision that is stored. -/
  audited : ∀ a ∈ s.history.rows, ∃ t ∈ s.transactions.rows, t.key = a.record.transactionId ∧
    a.record.decisionColumns = t.record.decisionColumns
  /-- The position of a call that returned has exactly one history row. -/
  positions : ∀ i call result, s.phase i = .returned call result →
    ∃ a, s.history.rows.filter (fun b => b.key = call.provenance.position) = [a]
  /-- A call that returned either stored its decision, or returns the one that is stored. -/
  returned : ∀ i call result, s.phase i = .returned call result → ∃ t ∈ s.transactions.rows,
    t.key = call.decision.transactionId ∧ ¬t.record.Differs call.decision ∧
      ((result.outcome = .evaluated ∧ result.decision = call.decision ∧ t.MadeBy i call) ∨
        (result.outcome = .duplicate ∧ result.decision = decisionFromRecord t.record))
  /-- Of the calls for one transaction at most one returns EVALUATED. -/
  evaluatedCall : ∀ i j call call' result result', s.phase i = .returned call result → s.phase j = .returned call' result' →
    result.outcome = .evaluated → result'.outcome = .evaluated →
    call.decision.transactionId = call'.decision.transactionId → i = j
  /-- A call that finds its transaction stored raises exactly if the stored row differs, and changes no table. -/
  judged : ∀ i call, s.phase i = .present call → ∃ t ∈ s.transactions.rows, t.key = call.decision.transactionId ∧
    ∃ s', recordStep data s (.selectExisting i) = some s' ∧ s'.transactions.rows = s.transactions.rows ∧
      s'.history.rows = s.history.rows ∧ (s'.phase i = .raised call .conflictingDuplicate ↔ t.record.Differs call.decision)
  /-- A call that raised for a conflicting duplicate has no row in either table, committed or open. -/
  conflicting : ∀ i call, s.phase i = .raised call .conflictingDuplicate →
    (∃ t ∈ s.transactions.rows, t.key = call.decision.transactionId ∧ t.record.Differs call.decision) ∧
      (∀ t ∈ s.transactions.rows, t.call ≠ i) ∧ (∀ a ∈ s.history.rows, a.call ≠ i) ∧
      s.transactions.own i = [] ∧ s.history.own i = []
  /-- Nothing but a commit changes what is committed. -/
  onlyCommits : ∀ e s', recordStep data s e = some s' → (∀ i a, e ≠ .commit i a) →
    s'.transactions.rows = s.transactions.rows ∧ s'.history.rows = s.history.rows

/-- The first decision wins and the audit trail is exact, in every reachable state of any concurrent calls in which a Kafka
position always carries the same transaction. -/
theorem first_decision_wins {data : Position → TransactionData} {s : DecisionsState} (h : (decisions data).Reachable s) :
    FirstDecisionWins data s := by
  have hi := inv_reachable h
  constructor
  · have hk := hi.keyedT
    unfold UniqueTable.Keyed at hk
    rw [List.map_append] at hk
    exact List.Nodup.of_append_left hk
  · intro events s' hr
    exact run_rows h hr
  · intro t ht
    exact evaluated_one hi ht
  · intro a ha
    obtain ⟨-, -, t, ht, hk, hc, -⟩ := hi.audited a ha
    exact ⟨t, ht, hk, hc⟩
  · intro i call result hp
    have hknown := hi.known i
    rw [hp] at hknown
    obtain ⟨-, -, a, ha, hk⟩ := hknown
    exact ⟨a, hk ▸ position_one hi ha⟩
  · intro i call result hp
    have hknown := hi.known i
    rw [hp] at hknown
    obtain ⟨hres, hmade, -⟩ := hknown
    unfold RecordResult.Known at hres
    cases ho : result.outcome with
    | evaluated =>
      rw [ho] at hres
      obtain ⟨t, ht, hm⟩ := hmade ho
      refine ⟨t, ht, madeBy_key hm, ?_, Or.inl ⟨rfl, hres, hm⟩⟩
      obtain ⟨now, rfl⟩ := hm
      exact stored_not_differs call.decision now
    | duplicate =>
      rw [ho] at hres
      obtain ⟨t, ht, hk, hd, hdec⟩ := hres
      exact ⟨t, ht, hk, not_differs_of_data hd, Or.inr ⟨rfl, hdec⟩⟩
  · intro i j call call' result result' hp hp' ho ho' hid
    have hknown := hi.known i
    have hknown' := hi.known j
    rw [hp] at hknown
    rw [hp'] at hknown'
    obtain ⟨t, ht, hm⟩ := hknown.2.1 ho
    obtain ⟨t', ht', hm'⟩ := hknown'.2.1 ho'
    have heq : t = t' := hi.keyedT.eq_of_key ht ht' (by rw [madeBy_key hm, madeBy_key hm', hid])
    obtain ⟨now, rfl⟩ := hm
    obtain ⟨now', rfl⟩ := hm'
    exact congrArg StoredDecision.call heq
  · intro i call hp
    have hknown := hi.known i
    rw [hp] at hknown
    obtain ⟨t, ht, hk⟩ := hknown
    refine ⟨t, ht, hk, ?_⟩
    obtain ⟨existing, hf⟩ : ∃ existing, s.find call.decision.transactionId = some existing := by
      cases hf : s.find call.decision.transactionId with
      | none => exact absurd hk (find_none hf t ht)
      | some existing => exact ⟨existing, rfl⟩
    have heq : existing = t := hi.keyedT.eq_of_key (find_some hf).1 ht ((find_some hf).2.trans hk.symm)
    subst heq
    by_cases hd : existing.record.Differs call.decision
    · have hb : ¬sameTransaction (decisionFromRecord existing.record) call.decision = true := fun hs =>
        (sameTransaction_iff _ _).mp hs hd
      simp only [recordStep, hp, hf, if_neg hb]
      exact ⟨_, rfl, rfl, rfl, fun _ => hd, fun _ => Function.update_self ..⟩
    · have hb : sameTransaction (decisionFromRecord existing.record) call.decision = true := (sameTransaction_iff _ _).mpr hd
      simp only [recordStep, hp, hf, if_pos hb]
      refine ⟨_, rfl, rfl, rfl, fun hq => ?_, fun hd' => absurd hd' hd⟩
      have hself : (s.setPhase i (.decided call ⟨.duplicate, decisionFromRecord existing.record⟩)).phase i = _ :=
        Function.update_self ..
      rw [hself] at hq
      cases hq
  · intro i call hp
    have hknown := hi.known i
    have hownT := hi.ownT i
    have hownH := hi.ownH i
    rw [hp] at hknown hownT hownH
    refine ⟨hknown, ?_, ?_, hownT, hownH⟩
    · rintro t ht rfl
      have hm := (hi.made t ht).1
      rw [hp] at hm
      exact hm
    · rintro a ha rfl
      have hm := (hi.audited a ha).1
      rw [hp] at hm
      exact hm
  · intro e s' hs hn
    rcases step_rows (step_of hs) with hr | ⟨i, a, rfl, -⟩
    · exact hr
    · exact absurd rfl (hn i a)

namespace DecisionsExample

/-- 120.00, which fits `numeric(18, 2)` and is positive. -/
def amount : Money where
  value := ⟨120, 0⟩
  fits := ⟨12000, by norm_num, by norm_num [Decimal.toRat]⟩
  positive := by norm_num [Decimal.toRat]

/-- A decision for one transaction, in a currency and with a score. -/
def decision (currency : String) (riskScore : ℕ) : TransactionDecision where
  transactionId := ⟨7⟩
  userId := ⟨1⟩
  amount := amount
  currency := currency
  category := "GROCERIES"
  occurredAt := 0
  riskScore := riskScore
  verdict := .approved
  isFraud := false
  triggeredRules := []
  rulesVersion := "fraud-default@v1"
  rulesHash := "hash"
  correlationId := none
  channel := none
  country := none
  enrichment := none

/-- The message at an offset. -/
def provenance (offset : ℕ) : MessageProvenance := ⟨"transactions", 0, offset, none⟩

/-- The transaction was published at two offsets, and at offset 2 in another currency. -/
def data (p : Position) : TransactionData := (decision (if p.2.2 = 2 then "USD" else "ZAR") 0).data

/-- Offset 0 is recorded; offset 1, scored otherwise, repeats it; offset 2 conflicts with it. -/
def events : List RecordEvent :=
  [.begin 0 ⟨decision "ZAR" 0, provenance 0⟩, .insertDecision 0 5, .insertHistory 0, .commit 0 true,
    .begin 1 ⟨decision "ZAR" 40, provenance 1⟩, .insertDecision 1 6, .selectExisting 1, .insertHistory 1, .commit 1 true,
    .begin 2 ⟨decision "USD" 0, provenance 2⟩, .insertDecision 2 7, .selectExisting 2]

end DecisionsExample

open DecisionsExample in
/-- A transaction that is published three times, the last time in another currency. -/
theorem first_decision_wins_republished :
    ∃ s, (decisions data).run .empty events = some s ∧
      s.phase 2 = .raised ⟨decision "USD" 0, provenance 2⟩ .conflictingDuplicate ∧
      s.history.rows.map (fun a => (a.record.outcome, a.record.riskScore)) = [(.evaluated, 0), (.duplicate, 0)] ∧
      FirstDecisionWins data s := by
  have hr : ((decisions data).run .empty events).map
      (fun s => (s.phase 2, s.history.rows.map fun a => (a.record.outcome, a.record.riskScore))) =
      some (.raised ⟨decision "USD" 0, provenance 2⟩ .conflictingDuplicate, [(.evaluated, 0), (.duplicate, 0)]) := rfl
  obtain ⟨s, hs, he⟩ := Option.map_eq_some_iff.mp hr
  injection he with hp hh
  exact ⟨s, hs, hp, hh, first_decision_wins (StepSystem.Reachable.run (.start rfl) hs)⟩

end FraudDetection
