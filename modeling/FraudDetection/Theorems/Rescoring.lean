import FraudDetection.Theorems.Traceability

/-!
# Scoring a transaction again

Where the events of each user are processed one after the other in the order of their times, a stored transaction was scored on all
rows of its user that came before it, and every row that came after it is no earlier. So its window gets no new row but those of the
very same time, which its upper end includes.
-/

namespace FraudDetection

/-- A call in this phase has not ended. -/
def RecordPhase.isRunning : RecordPhase → Bool
  | .called _ | .present _ | .decided _ _ | .written _ _ => true
  | _ => false

/-- A scored event is being recorded. -/
def TraceState.Recording (s : TraceState) (i : ℕ) (scoring : Scoring) : Prop :=
  (s.decisions.phase i).isRunning = true ∧ s.scorings i = some scoring

/-- The events of each user are processed one after the other, in the order of their times, with any rule sets. -/
def InUserOrder (s : TraceState) : TraceEvent → Prop
  | .score _ _ event _ => ∀ i scoring, s.scorings i = some scoring → scoring.event.userId = event.userId →
      (s.decisions.phase i).isRunning = false ∧ scoring.event.occurredAt ≤ event.occurredAt
  | _ => True

/-- The event of a scoring, scored again with the same rule set. -/
def Scoring.rescored (scoring : Scoring) (rows : List TransactionRecord) : Except ScoreError Score :=
  scoreTransaction rows scoring.ruleSet.definition (.ofEvent scoring.event)

namespace RescoringAux

open TraceAux VelocityAux

variable {sha : Sha256} {py : Interpreter} {settings : CacheSettings} {data : Position → TransactionData}

/-! ## Velocity on more rows -/

theorem matching_append (rows new : List TransactionRecord) (input : ScoreInput) (window : ℕ) :
    matching (rows ++ new) input window = matching rows input window ++ matching new input window := List.filter_append ..

/-- The velocity depends on the rows that the query takes. -/
theorem velocity_of_matching {rows rows' : List TransactionRecord} {input : ScoreInput} {window : ℕ}
    (h : matching rows input window = matching rows' input window) : input.velocity rows window = input.velocity rows' window := by
  refine TimestampsAux.velocity_of_aggregates ?_
  rw [velocityAggregates_matching, velocityAggregates_matching, h]

/-- What a score says of the velocity. -/
theorem score_velocity {rows : List TransactionRecord} {definition : RuleSetDefinition} {input : ScoreInput} {score : Score}
    (h : scoreTransaction rows definition input = .ok score) :
    input.velocity rows definition.velocityWindowSeconds = .ok (score.priorCount, score.priorAmount) := by
  unfold scoreTransaction at h
  split at h
  · cases h
  · rename_i priorCount priorAmount hvelocity
    split at h
    · cases h
    · cases h
      exact hvelocity

/-- On more rows a score is the same just if the query takes none of the new ones. -/
theorem score_append_iff {rows new : List TransactionRecord} {definition : RuleSetDefinition} {input : ScoreInput} {score : Score}
    (h : scoreTransaction rows definition input = .ok score) :
    scoreTransaction (rows ++ new) definition input = .ok score ↔ matching new input definition.velocityWindowSeconds = [] := by
  constructor
  · intro hsame
    obtain ⟨hcount, -⟩ := velocity_eq (score_velocity h)
    obtain ⟨hcount', -⟩ := velocity_eq (score_velocity hsame)
    rw [matching_append, List.length_append, hcount, left_eq_add] at hcount'
    exact List.length_eq_zero_iff.mp hcount'
  · intro hnone
    have hmatching : matching (rows ++ new) input definition.velocityWindowSeconds =
        matching rows input definition.velocityWindowSeconds := by
      rw [matching_append, hnone, List.append_nil]
    unfold scoreTransaction at h ⊢
    rw [velocity_of_matching hmatching]
    exact h

/-! ## The steps of a call -/

/-- A call that has begun and ended does not go on. -/
theorem running_step {s s' : DecisionsState} {e : RecordEvent} (h : DecisionsAux.Step data s e s') (hb : e.begins = false) {j : ℕ}
    (hj : (s'.phase j).isRunning = true) : (s.phase j).isRunning = true := by
  have hupdate : ∀ {i : ℕ} {q : RecordPhase}, (s.phase i).isRunning = true ∨ q.isRunning = false →
      (Function.update s.phase i q j).isRunning = true → (s.phase j).isRunning = true := by
    intro i q hi hq
    by_cases heq : j = i
    · rw [heq, Function.update_self] at hq
      rw [heq]
      rcases hi with hi | hi
      · exact hi
      · rw [hi] at hq
        cases hq
    · rwa [Function.update_of_ne heq] at hq
  cases h with
  | begin i call hp hd => cases hb
  | present i now call hp hc => exact hupdate (.inl (by rw [hp]; rfl)) hj
  | inserted i now call table hp hf ht => exact hupdate (.inl (by rw [hp]; rfl)) hj
  | duplicate i call existing hp hf hs => exact hupdate (.inl (by rw [hp]; rfl)) hj
  | skipped i call result hp hc => exact hupdate (.inl (by rw [hp]; rfl)) hj
  | audited i call result table hp ht => exact hupdate (.inl (by rw [hp]; rfl)) hj
  | commit i acknowledged call result hp => exact hupdate (.inl (by rw [hp]; rfl)) hj
  | conflicting i call existing hp hf hs => exact hupdate (.inr rfl) hj
  | missing i call hp hf => exact hupdate (.inr rfl) hj
  | failed _ i call error hc hm he hn => exact hupdate (.inr rfl) hj

/-- What is committed of the tables by a step: nothing, or what a call that ends with it has inserted. -/
theorem committed_step {s : TraceState} (h : Inv sha py data s) {e : RecordEvent} {decisions : DecisionsState}
    (hs : recordStep data s.decisions e = some decisions) :
    decisions.transactions.rows = s.decisions.transactions.rows ∨
      ∃ i scoring now t, s.Recording i scoring ∧ (decisions.phase i).isRunning = false ∧
        t.call = i ∧ t.record = transactionRecord scoring.decision now ∧
        decisions.transactions.rows = s.decisions.transactions.rows ++ [t] := by
  rcases DecisionsAux.step_rows (DecisionsAux.step_of hs) with ⟨hrows, -⟩ | ⟨i, acknowledged, rfl, hrows, -⟩
  · exact .inl hrows
  · simp only [recordStep] at hs
    split at hs
    · rename_i call result hp
      have hown := (DecisionsAux.inv_reachable h.decisions).ownT i
      rw [hp] at hown
      simp only [RecordPhase.OwnDecision] at hown
      split at hown
      · obtain ⟨t, hown, now, rfl⟩ := hown
        obtain ⟨scoring, hscoring, hdecision⟩ := h.scored i call (by rw [hp]; rfl)
        refine .inr ⟨i, scoring, now, ⟨transactionRecord call.decision now, i, call.provenance⟩, ⟨by rw [hp]; rfl, hscoring⟩, ?_, rfl,
          congrArg (transactionRecord · now) hdecision, ?_⟩
        · cases hs
          simp only [DecisionsState.commit, Function.update_self]
          cases acknowledged <;> rfl
        · rw [hrows, hown]
      · left
        rw [hrows, hown, List.append_nil]
    · cases hs

/-! ## The invariant -/

/-- What holds in every state such runs reach: whose events are being recorded, and what they were scored on. -/
structure OrderInv (sha : Sha256) (py : Interpreter) (data : Position → TransactionData) (s : TraceState) : Prop where
  trace : Inv sha py data s
  grown : ∀ i scoring, s.scorings i = some scoring → scoring.rows <+: s.transactions
  alone : ∀ i j scoring scoring', s.Recording i scoring → s.Recording j scoring' →
    scoring.event.userId = scoring'.event.userId → i = j
  latest : ∀ j scoring, s.Recording j scoring → ∀ i earlier, s.scorings i = some earlier →
    earlier.event.userId = scoring.event.userId → earlier.event.occurredAt ≤ scoring.event.occurredAt
  seen : ∀ j scoring, s.Recording j scoring → ∀ row ∈ s.transactions, row.userId = scoring.event.userId → row ∈ scoring.rows
  later : ∀ t ∈ s.decisions.transactions.rows, ∀ scoring, s.scorings t.call = some scoring → ∀ row ∈ s.transactions,
    row.userId = scoring.event.userId → row.transactionId ≠ scoring.event.transactionId →
      row ∈ scoring.rows ∨ scoring.event.occurredAt ≤ row.occurredAt

theorem order_empty : OrderInv sha py data .empty where
  trace := inv_empty
  grown i scoring h := by cases h
  alone i j scoring scoring' h := by cases h.2
  latest j scoring h := by cases h.2
  seen j scoring h := by cases h.2
  later t ht := absurd ht List.not_mem_nil

/-- A step that leaves the decisions and their scorings keeps the invariant. -/
theorem order_frame {s s' : TraceState} (h : OrderInv sha py data s) (htrace : Inv sha py data s')
    (hdecisions : s'.decisions = s.decisions) (hscorings : s'.scorings = s.scorings) : OrderInv sha py data s' := by
  have htransactions : s'.transactions = s.transactions := by
    unfold TraceState.transactions
    rw [hdecisions]
  have hrecording : ∀ {i scoring}, s'.Recording i scoring → s.Recording i scoring := by
    intro i scoring hr
    unfold TraceState.Recording at hr
    rwa [hdecisions, hscorings] at hr
  refine ⟨htrace, ?_, fun i j scoring scoring' hi hj => h.alone i j _ _ (hrecording hi) (hrecording hj), ?_, ?_, ?_⟩
  · rw [htransactions, hscorings]
    exact h.grown
  · intro j scoring hj
    rw [hscorings]
    exact h.latest j scoring (hrecording hj)
  · intro j scoring hj
    rw [htransactions]
    exact h.seen j scoring (hrecording hj)
  · rw [hdecisions, hscorings, htransactions]
    exact h.later

/-- An event that is scored in the order of its user keeps the invariant. -/
theorem order_score {s : TraceState} (h : OrderInv sha py data s) {i : ℕ} {call : RecordCall} {scoring : Scoring}
    {decisions : DecisionsState} (hrows : scoring.rows = s.transactions)
    (horder : ∀ j earlier, s.scorings j = some earlier → earlier.event.userId = scoring.event.userId →
      (s.decisions.phase j).isRunning = false ∧ earlier.event.occurredAt ≤ scoring.event.occurredAt)
    (hs : recordStep data s.decisions (.begin i call) = some decisions)
    (htrace : Inv sha py data { s with decisions := decisions, scorings := Function.update s.scorings i (some scoring) }) :
    OrderInv sha py data { s with decisions := decisions, scorings := Function.update s.scorings i (some scoring) } := by
  obtain ⟨habsent, rfl⟩ := DecisionsAux.begin_some hs
  have htransactions : TraceState.transactions
      { s with decisions := s.decisions.setPhase i (.called call), scorings := Function.update s.scorings i (some scoring) } =
      s.transactions := rfl
  -- what is being recorded is this event, or it was being recorded already
  have hrecording : ∀ {j : ℕ} {other : Scoring}, TraceState.Recording
      { s with decisions := s.decisions.setPhase i (.called call), scorings := Function.update s.scorings i (some scoring) } j other →
      (j = i ∧ other = scoring) ∨ s.Recording j other := by
    rintro j other ⟨hrun, hother⟩
    by_cases heq : j = i
    · simp only [heq, Function.update_self] at hother
      cases hother
      exact .inl ⟨heq, rfl⟩
    · simp only [DecisionsState.setPhase, Function.update_of_ne heq] at hrun hother
      exact .inr ⟨hrun, hother⟩
  have hother : ∀ {j other}, s.Recording j other → other.event.userId ≠ scoring.event.userId := by
    rintro j other ⟨hrun, hscoring⟩ huser
    rw [(horder j other hscoring huser).1] at hrun
    cases hrun
  refine ⟨htrace, ?_, ?_, ?_, ?_, ?_⟩
  · intro j other hj
    by_cases heq : j = i
    · simp only [heq, Function.update_self] at hj
      cases hj
      rw [htransactions, hrows]
    · simp only [Function.update_of_ne heq] at hj
      exact h.grown j other hj
  · intro j k other other' hj hk huser
    rcases hrecording hj with ⟨hji, hjs⟩ | hj
    · rcases hrecording hk with ⟨hki, -⟩ | hk
      · exact hji.trans hki.symm
      · exact absurd (hjs ▸ huser.symm) (hother hk)
    · rcases hrecording hk with ⟨-, hks⟩ | hk
      · exact absurd (hks ▸ huser) (hother hj)
      · exact h.alone j k other other' hj hk huser
  · intro j other hj k earlier hk huser
    by_cases heq : k = i
    · simp only [heq, Function.update_self] at hk
      cases hk
      rcases hrecording hj with ⟨rfl, rfl⟩ | hj
      · exact le_rfl
      · exact absurd huser.symm (hother hj)
    · simp only [Function.update_of_ne heq] at hk
      rcases hrecording hj with ⟨rfl, rfl⟩ | hj
      · exact (horder k earlier hk huser).2
      · exact h.latest j other hj k earlier hk huser
  · intro j other hj row hrow huser
    rcases hrecording hj with ⟨rfl, rfl⟩ | hj
    · rw [hrows]
      exact hrow
    · exact h.seen j other hj row hrow huser
  · intro t ht other hother' row hrow huser hid
    have hne : t.call ≠ i := by
      intro heq
      have hmade := ((DecisionsAux.inv_reachable h.trace.decisions).made t ht).1
      rw [heq, habsent] at hmade
      exact hmade
    simp only [Function.update_of_ne hne] at hother'
    exact h.later t ht other hother' row hrow huser hid

/-- A step of a call keeps the invariant. -/
theorem order_record {s : TraceState} (h : OrderInv sha py data s) {e : RecordEvent} {decisions : DecisionsState}
    (hb : e.begins = false) (hs : recordStep data s.decisions e = some decisions)
    (htrace : Inv sha py data { s with decisions := decisions }) : OrderInv sha py data { s with decisions := decisions } := by
  have hrecording : ∀ {j other}, TraceState.Recording { s with decisions := decisions } j other → s.Recording j other :=
    fun hj => ⟨running_step (DecisionsAux.step_of hs) hb hj.1, hj.2⟩
  rcases committed_step h.trace hs with hrows | ⟨i, scoring, now, t, hi, hended, rfl, hrecord, hrows⟩
  · have htransactions : TraceState.transactions { s with decisions := decisions } = s.transactions :=
      congrArg (List.map StoredDecision.record) hrows
    refine ⟨htrace, ?_, fun j k _ _ hj hk => h.alone j k _ _ (hrecording hj) (hrecording hk),
      fun j other hj => h.latest j other (hrecording hj), ?_, ?_⟩
    · rw [htransactions]
      exact h.grown
    · intro j other hj
      rw [htransactions]
      exact h.seen j other (hrecording hj)
    · rw [htransactions]
      simp only [hrows]
      exact h.later
  · have htransactions : TraceState.transactions { s with decisions := decisions } = s.transactions ++ [t.record] := by
      unfold TraceState.transactions
      rw [hrows, List.map_append]
      rfl
    have huserId : t.record.userId = scoring.event.userId := by rw [hrecord]; rfl
    have hid : t.record.transactionId = scoring.event.transactionId := by rw [hrecord]; rfl
    have htime : t.record.occurredAt = scoring.event.occurredAt := by rw [hrecord]; rfl
    refine ⟨htrace, ?_, fun j k _ _ hj hk => h.alone j k _ _ (hrecording hj) (hrecording hk),
      fun j other hj => h.latest j other (hrecording hj), ?_, ?_⟩
    · intro j other hj
      rw [htransactions]
      exact (h.grown j other hj).trans (List.prefix_append _ _)
    · intro j other hj row hrow huser
      rw [htransactions] at hrow
      rcases List.mem_append.mp hrow with hrow | hrow
      · exact h.seen j other (hrecording hj) row hrow huser
      · rw [List.mem_singleton.mp hrow, huserId] at huser
        have heq := h.alone t.call j scoring other hi (hrecording hj) huser
        have hrun := hj.1
        rw [← heq] at hrun
        exact absurd hrun (by rw [hended]; exact Bool.false_ne_true)
    · intro t' ht' other hother row hrow huser hne
      rw [htransactions] at hrow
      rw [hrows] at ht'
      rcases List.mem_append.mp ht' with ht' | ht'
      · rcases List.mem_append.mp hrow with hrow | hrow
        · exact h.later t' ht' other hother row hrow huser hne
        · rw [List.mem_singleton.mp hrow] at huser ⊢
          rw [huserId] at huser
          exact .inr (htime ▸ h.latest t.call scoring hi t'.call other hother huser.symm)
      · rw [List.mem_singleton.mp ht', hi.2] at hother
        cases hother
        rcases List.mem_append.mp hrow with hrow | hrow
        · exact .inl (h.seen t.call scoring hi row hrow huser)
        · rw [List.mem_singleton.mp hrow] at hne
          exact absurd hid hne

theorem order_step {s s' : TraceState} {e : TraceEvent} (h : OrderInv sha py data s) (hg : InUserOrder s e)
    (hs : (tracing sha py settings data).step s e = some s') : OrderInv sha py data s' := by
  have htrace := inv_step h.trace hs
  change traceStep sha py settings data s e = some s' at hs
  cases e with
  | cache event =>
    obtain ⟨cache, hc, rfl⟩ := Option.map_eq_some_iff.mp hs
    exact order_frame h htrace rfl rfl
  | publishOther record =>
    simp only [traceStep] at hs
    split at hs
    · cases hs
    · cases hs
      exact order_frame h htrace rfl rfl
  | score i active event provenance =>
    obtain ⟨ruleSet, score, decisions, -, -, hd, rfl⟩ := score_some hs
    exact order_score h rfl hg hd htrace
  | record event =>
    simp only [traceStep] at hs
    split at hs
    · cases hs
    · rename_i hb
      obtain ⟨decisions, hd, rfl⟩ := Option.map_eq_some_iff.mp hs
      exact order_record h (by simpa using hb) hd htrace
  | editVersion index definition =>
    cases hs
    exact order_frame h htrace rfl rfl
  | editOther index definition =>
    cases hs
    exact order_frame h htrace rfl rfl
  | editRedis value =>
    cases hs
    exact order_frame h htrace rfl rfl

theorem order_reachable {s : TraceState} (h : (tracing sha py settings data).ReachableWhen InUserOrder s) : OrderInv sha py data s := by
  refine StepSystem.ReachableWhen.invariant ?_ (fun s e s' hi hg hs => order_step hi hg hs) h
  rintro s rfl
  exact order_empty

/-- The rows that came later and that the query takes have the time of the transaction. -/
theorem mem_matching_iff {s : TraceState} (h : OrderInv sha py data s) {t : StoredDecision} (ht : t ∈ s.decisions.transactions.rows)
    {scoring : Scoring} (hscoring : s.scorings t.call = some scoring) {row : TransactionRecord} (hrow : row ∈ s.transactions)
    (hnew : row ∉ scoring.rows) (window : ℕ) :
    InWindow (.ofEvent scoring.event) window row ∧ row.transactionId ≠ (ScoreInput.ofEvent scoring.event).excludeTransactionId ↔
      row.userId = scoring.event.userId ∧ row.transactionId ≠ scoring.event.transactionId ∧
        row.occurredAt = scoring.event.occurredAt := by
  have htime : (ScoreInput.ofEvent scoring.event).occurredAt = scoring.event.occurredAt := by
    simp [ScoreInput.occurredAt, ScoreInput.ofEvent]
  have hexclude : (ScoreInput.ofEvent scoring.event).excludeTransactionId = scoring.event.transactionId := rfl
  unfold InWindow
  rw [htime, hexclude]
  constructor
  · rintro ⟨⟨huser, -, hend⟩, hid⟩
    rcases h.later t ht scoring hscoring row hrow huser hid with hold | hlater
    · exact absurd hold hnew
    · exact ⟨huser, hid, le_antisymm hend hlater⟩
  · rintro ⟨huser, hid, hsame⟩
    refine ⟨⟨huser, ?_, hsame.le⟩, hid⟩
    rw [hsame]
    exact sub_le_self _ (Int.mul_nonneg (Int.natCast_nonneg window) (by decide))

end RescoringAux

open RescoringAux in
/-- Where the events of each user are processed in the order of their times, a stored transaction that is scored again, with the same
rule set, has the same score just if no other one of its user has been stored since with the very same time. -/
theorem rescored_iff {sha : Sha256} {py : Interpreter} {settings : CacheSettings} {data : Position → TransactionData} {s : TraceState}
    (h : (tracing sha py settings data).ReachableWhen InUserOrder s) {t : StoredDecision} (ht : t ∈ s.decisions.transactions.rows) :
    ∃ scoring, s.scorings t.call = some scoring ∧ (∃ now, t.record = transactionRecord scoring.decision now) ∧
      scoring.rescored scoring.rows = .ok scoring.score ∧
      (scoring.rescored s.transactions = .ok scoring.score ↔ ∀ row ∈ s.transactions, row ∉ scoring.rows →
        row.userId = scoring.event.userId → row.transactionId ≠ scoring.event.transactionId →
          row.occurredAt ≠ scoring.event.occurredAt) := by
  have hi := order_reachable h
  obtain ⟨scoring, now, hscoring, hrecord⟩ := TraceAux.scoring_of_row hi.trace ht
  have hfirst := (hi.trace.scores t.call scoring hscoring).1
  refine ⟨scoring, hscoring, ⟨now, hrecord⟩, hfirst, ?_⟩
  obtain ⟨new, hnew⟩ := hi.grown t.call scoring hscoring
  have hnodup : (scoring.rows ++ new).Nodup := hnew ▸ DecisionsAux.records_nodup hi.trace.decisions
  have hmem : ∀ row ∈ new, row ∈ s.transactions ∧ row ∉ scoring.rows := by
    intro row hrow
    refine ⟨hnew ▸ List.mem_append_right _ hrow, fun hold => ?_⟩
    exact (List.nodup_append.mp hnodup).2.2 row hold row hrow rfl
  unfold Scoring.rescored at *
  rw [← hnew, score_append_iff hfirst, hnew]
  unfold VelocityAux.matching
  rw [List.filter_eq_nil_iff]
  constructor
  · intro hnone row hrow hold huser hid hsame
    have hrow' : row ∈ new := by
      rw [← hnew] at hrow
      exact (List.mem_append.mp hrow).resolve_left hold
    refine hnone row hrow' ?_
    have := (mem_matching_iff hi ht hscoring hrow hold scoring.ruleSet.definition.velocityWindowSeconds).mpr ⟨huser, hid, hsame⟩
    simpa using this
  · intro hnone row hrow htaken
    obtain ⟨hrow', hold⟩ := hmem row hrow
    have htaken' : InWindow (.ofEvent scoring.event) scoring.ruleSet.definition.velocityWindowSeconds row ∧
        row.transactionId ≠ (ScoreInput.ofEvent scoring.event).excludeTransactionId := by simpa using htaken
    obtain ⟨huser, hid, hsame⟩ := (mem_matching_iff hi ht hscoring hrow' hold _).mp htaken'
    exact hnone row hrow' hold huser hid hsame

namespace RescoringExample

open RoundTripExample StepSystem TraceAux TraceExample

/-- An event, and another one of the same user, at the same time or half a minute later. -/
def first : TransactionCreatedV1 := VelocityExample.event
def second (late : Bool) : TransactionCreatedV1 :=
  { first with transactionId := ⟨9⟩, occurredAt := if late then 30000000 else 0 }

/-- Their scores. -/
def firstScore : Score := VelocityExample.score
def secondScore : Score := ⟨⟨[], 0, .approved⟩, 1, ⟨12000, -2⟩⟩

/-- The decisions on them. -/
def firstDecision : TransactionDecision := transactionDecision first ruleSet firstScore
def secondDecision (late : Bool) : TransactionDecision := transactionDecision (second late) ruleSet secondScore

/-- Their rows. -/
def firstRow : TransactionRecord := transactionRecord firstDecision 5
def secondRow (late : Bool) : TransactionRecord := transactionRecord (secondDecision late) 6

theorem first_score : scoreTransaction [] ruleSet.definition (.ofEvent first) = .ok firstScore := rfl

theorem second_score (late : Bool) : scoreTransaction [firstRow] ruleSet.definition (.ofEvent (second late)) = .ok secondScore := by
  cases late <;> rfl

/-- The velocity of the first event now has the second one, which is of the same time. -/
theorem first_score_again : scoreTransaction [firstRow, secondRow false] ruleSet.definition (.ofEvent first) = .ok secondScore := rfl

/-- The transaction at an offset. -/
def data (late : Bool) (p : Position) : TransactionData := if p.2.2 = 1 then (secondDecision late).data else firstDecision.data

/-- The recording of a decision, once its call has begun. -/
def recordEvents (call : ℕ) (createdAt : Timestamp) : List RecordEvent :=
  [.insertDecision call createdAt, .insertHistory call, .commit call true]

/-- Both are recorded, one after the other. -/
theorem records (late : Bool) : ∃ begun recorded begun' recorded' : DecisionsState,
    recordStep (data late) .empty (.begin 0 ⟨firstDecision, DecisionsExample.provenance 0⟩) = some begun ∧
      (decisions (data late)).run begun (recordEvents 0 5) = some recorded ∧
      recordStep (data late) recorded (.begin 1 ⟨secondDecision late, DecisionsExample.provenance 1⟩) = some begun' ∧
      (decisions (data late)).run begun' (recordEvents 1 6) = some recorded' ∧ (recorded.phase 0).isRunning = false ∧
      recorded.transactions.rows = [⟨firstRow, 0, DecisionsExample.provenance 0⟩] ∧
      recorded'.transactions.rows =
        [⟨firstRow, 0, DecisionsExample.provenance 0⟩, ⟨secondRow late, 1, DecisionsExample.provenance 1⟩] := by
  cases late with
  | false => exact ⟨_, _, _, _, rfl, rfl, rfl, rfl, rfl, rfl, rfl⟩
  | true => exact ⟨_, _, _, _, rfl, rfl, rfl, rfl, rfl, rfl, rfl⟩

/-- The cache holds the rule set, and some events have been scored. -/
def stateAt (cache : CacheState) (loads : List (Json × RuleSet)) (decisions : DecisionsState) (scorings : ℕ → Option Scoring) :
    TraceState := { TraceState.empty with cache := cache, loads := loads, decisions := decisions, scorings := scorings }

section

variable {late : Bool}

/-- An event is scored with the rule set. -/
theorem step_score {cache : CacheState} {loads : List (Json × RuleSet)} {decisions begun : DecisionsState}
    {scorings : ℕ → Option Scoring} {event : TransactionCreatedV1} {score : Score} {call : ℕ} {provenance : MessageProvenance}
    (hcall : cache.calls 0 = some ⟨0, 0, .returned ruleSet⟩)
    (hscore : scoreTransaction (decisions.transactions.rows.map (·.record)) ruleSet.definition (.ofEvent event) = .ok score)
    (hbegin : recordStep (data late) decisions (.begin call ⟨transactionDecision event ruleSet score, provenance⟩) = some begun) :
    (tracing sha interpreter CacheExample.settings (data late)).step (stateAt cache loads decisions scorings)
        (.score call 0 event provenance) =
      some (stateAt cache loads begun
        (Function.update scorings call (some ⟨event, ruleSet, decisions.transactions.rows.map (·.record), score⟩))) := by
  have hs : scoreTransaction (stateAt cache loads decisions scorings).transactions ruleSet.definition (.ofEvent event) = .ok score := hscore
  have hc : (stateAt cache loads decisions scorings).cache.calls 0 = some ⟨0, 0, .returned ruleSet⟩ := hcall
  have hb : recordStep (data late) (stateAt cache loads decisions scorings).decisions
      (.begin call ⟨transactionDecision event ruleSet score, provenance⟩) = some begun := hbegin
  simp only [tracing, traceStep, hc, hs, Scoring.decision, hb]
  rfl

/-- A state to which an event is recorded, and the one after it. -/
theorem recorded_run {cache : CacheState} {loads : List (Json × RuleSet)} {begun recorded : DecisionsState}
    {scorings : ℕ → Option Scoring} {call : ℕ} {createdAt : Timestamp}
    (h : (tracing sha interpreter CacheExample.settings (data late)).ReachableWhen InUserOrder (stateAt cache loads begun scorings))
    (hr : (decisions (data late)).run begun (recordEvents call createdAt) = some recorded) :
    (tracing sha interpreter CacheExample.settings (data late)).ReachableWhen InUserOrder (stateAt cache loads recorded scorings) := by
  have hrun := @run_record sha interpreter CacheExample.settings (data late) (stateAt cache loads begun scorings)
    (recordEvents call createdAt) recorded (by simp [recordEvents, RecordEvent.begins]) hr
  refine h.run (meets_of_forall (fun e he _ => ?_) _) hrun
  obtain ⟨_, -, rfl⟩ := List.mem_map.mp he
  trivial

end

/-- The first event scored, on an empty table, and the second one, on the row of the first. -/
def firstScoring : Scoring := ⟨first, ruleSet, [], firstScore⟩
def secondScoring (late : Bool) : Scoring := ⟨second late, ruleSet, [firstRow], secondScore⟩

/-- The first event is stored, and then the second one. -/
theorem both_run (late : Bool) : ∃ s : TraceState,
    (tracing sha interpreter CacheExample.settings (data late)).ReachableWhen InUserOrder s ∧
      s.decisions.transactions.rows =
        [⟨firstRow, 0, DecisionsExample.provenance 0⟩, ⟨secondRow late, 1, DecisionsExample.provenance 1⟩] ∧
      s.scorings 0 = some firstScoring ∧ s.scorings 1 = some (secondScoring late) := by
  obtain ⟨cache, hcache, hcall⟩ := loads_first
  obtain ⟨begun, recorded, begun', recorded', hbegin, hrecorded, hbegin', hrecorded', hended, hrows, hrows'⟩ := records late
  obtain ⟨loads, hloads⟩ := @run_cache _ _ _ (data late) .empty _ _ hcache
  have hloaded : (tracing sha interpreter CacheExample.settings (data late)).ReachableWhen InUserOrder
      (stateAt cache loads .empty fun _ => none) := by
    refine (ReachableWhen.start rfl).run (meets_of_forall (fun e he _ => ?_) _) hloads
    obtain ⟨_, -, rfl⟩ := List.mem_map.mp he
    trivial
  have hstep : (tracing sha interpreter CacheExample.settings (data late)).step (stateAt cache loads .empty fun _ => none)
      (.score 0 0 first (DecisionsExample.provenance 0)) =
        some (stateAt cache loads begun (Function.update (fun _ => none) 0 (some firstScoring))) :=
    step_score hcall first_score hbegin
  have horder : InUserOrder (stateAt cache loads .empty fun _ => none) (.score 0 0 first (DecisionsExample.provenance 0)) := by
    intro i scoring hscoring
    cases hscoring
  have hfirst := recorded_run (hloaded.step horder hstep) hrecorded
  have hrecords : recorded.transactions.rows.map (·.record) = [firstRow] := congrArg (List.map StoredDecision.record) hrows
  have hscore : scoreTransaction (recorded.transactions.rows.map (·.record)) ruleSet.definition (.ofEvent (second late)) =
      .ok secondScore := by
    rw [hrecords]
    exact second_score late
  have hstep' := @step_score late cache loads recorded begun' (Function.update (fun _ => none) 0 (some firstScoring)) (second late)
    secondScore 1 (DecisionsExample.provenance 1) hcall hscore hbegin'
  rw [hrecords] at hstep'
  have horder' : InUserOrder (stateAt cache loads recorded (Function.update (fun _ => none) 0 (some firstScoring)))
      (.score 1 0 (second late) (DecisionsExample.provenance 1)) := by
    intro i scoring hscoring _
    by_cases hi : i = 0
    · subst hi
      simp only [stateAt, Function.update_self] at hscoring
      cases hscoring
      have hle : (0 : Timestamp) ≤ (second late).occurredAt := by cases late <;> decide
      exact ⟨hended, hle⟩
    · simp only [stateAt, Function.update_of_ne hi] at hscoring
      cases hscoring
  exact ⟨_, recorded_run (hfirst.step horder' hstep') hrecorded', hrows', rfl, rfl⟩

end RescoringExample

open RescoringExample RoundTripExample TraceExample in
/-- Of two stored transactions of a user, half a minute apart, each has the same score again: the first one without the second in its
window, and the second one with the first. -/
theorem rescored_iff_inOrder : ∃ s t t' scoring scoring',
    (tracing sha interpreter CacheExample.settings (data true)).ReachableWhen InUserOrder s ∧ s.decisions.transactions.rows = [t, t'] ∧
      s.scorings t.call = some scoring ∧ scoring.score.priorCount = 0 ∧ scoring.rescored s.transactions = .ok scoring.score ∧
      s.scorings t'.call = some scoring' ∧ scoring'.score.priorCount = 1 ∧ scoring'.rescored s.transactions = .ok scoring'.score := by
  obtain ⟨s, hs, hrows, hfirst, hsecond⟩ := both_run true
  have htransactions : s.transactions = [firstRow, secondRow true] := congrArg (List.map StoredDecision.record) hrows
  obtain ⟨scoring, hscoring, -, -, hiff⟩ := rescored_iff hs (hrows ▸ List.mem_cons_self)
  obtain ⟨scoring', hscoring', -, -, hiff'⟩ := rescored_iff hs (hrows ▸ List.mem_cons_of_mem _ List.mem_cons_self)
  rw [hfirst] at hscoring
  rw [hsecond] at hscoring'
  cases hscoring
  cases hscoring'
  refine ⟨s, _, _, _, _, hs, hrows, hfirst, rfl, hiff.mpr fun row hrow _ _ hid => ?_, hsecond, rfl,
    hiff'.mpr fun row hrow hnew _ hid => ?_⟩
  · rw [htransactions] at hrow
    rcases List.mem_pair.mp hrow with rfl | rfl
    · exact absurd rfl hid
    · decide
  · rw [htransactions] at hrow
    rcases List.mem_pair.mp hrow with rfl | rfl
    · exact absurd List.mem_cons_self hnew
    · exact absurd rfl hid

open RescoringExample RoundTripExample TraceExample in
/-- A stored transaction has another score once its user has another one at the same time. -/
theorem rescored_false : ¬∀ (sha : Sha256) (py : Interpreter) (settings : CacheSettings) (data : Position → TransactionData)
    (s : TraceState), (tracing sha py settings data).ReachableWhen InUserOrder s → ∀ t ∈ s.decisions.transactions.rows,
      ∀ scoring, s.scorings t.call = some scoring → scoring.rescored s.transactions = .ok scoring.score := by
  intro hall
  obtain ⟨s, hs, hrows, hscoring, -⟩ := both_run false
  have hsame := hall sha interpreter CacheExample.settings (data false) s hs _ (hrows ▸ List.mem_cons_self) firstScoring hscoring
  have htransactions : s.transactions = [firstRow, secondRow false] := congrArg (List.map StoredDecision.record) hrows
  rw [htransactions] at hsame
  have hcount := congrArg Score.priorCount (Except.ok.inj (hsame.symm.trans first_score_again))
  cases hcount

end FraudDetection
