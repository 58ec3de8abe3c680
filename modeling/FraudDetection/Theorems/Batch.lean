import FraudDetection.Batch
import FraudDetection.Lib.Windows
import FraudDetection.Theorems.Decisions
import Mathlib.Algebra.BigOperators.Group.List.Lemmas

/-!
# What the daily summary counts

The two statements of a summary see different tables when a decision is committed between them. Two runs count a decision once
between them when the first one sees it just if the window of the second no longer reaches it: the window of a run begins at a
time, and what the run sees ends at a commit.
-/

namespace FraudDetection

/-- The summary of a table. -/
def summaryOf (since : Timestamp) (rows : List TransactionRecord) : Summary :=
  ⟨(summaryTotals since rows).1, (summaryTotals since rows).2, summaryCategories since rows⟩

/-- A summary adds up, and is that of the table at one moment between the two statements. -/
structure Summary.Consistent (since : Timestamp) (rows laterRows : List TransactionRecord) (summary : Summary) : Prop where
  total : summary.total = (summary.byCategory.map (·.2)).sum
  fraud : summary.fraud ≤ summary.total
  moment : ∃ table, rows <+: table ∧ table <+: laterRows ∧ summary = summaryOf since table

/-- A run counts a decision: it sees it, and the decision was made since its start. -/
def SummaryRun.counts (run : SummaryRun) (t : TransactionRecord) : Bool := decide (t ∈ madeSince run.since run.rows)

/-- The window of a run reaches back to a decision. -/
def SummaryRun.reaches (run : SummaryRun) (t : TransactionRecord) : Bool := decide (run.since ≤ t.createdAt)

/-- A decision is committed when a run counts. -/
def SummaryRun.sees (run : SummaryRun) (t : TransactionRecord) : Bool := decide (t ∈ run.rows)

/-- What the statements of a call have left, of a table that has grown since. -/
def SummaryPhase.Follows (records : List TransactionRecord) : SummaryPhase → Prop
  | .called _ => True
  | .totalled since totals rows => totals = summaryTotals since rows ∧ rows <+: records
  | .returned since summary rows laterRows => rows <+: laterRows ∧ laterRows <+: records ∧
      summary = ⟨(summaryTotals since rows).1, (summaryTotals since rows).2, summaryCategories since laterRows⟩

namespace BatchAux

/-! ## Tables that grow -/

/-- A step of a call of `record_decision` only adds rows. -/
theorem step_records {data : Position → TransactionData} {s s' : DecisionsState} {e : RecordEvent}
    (h : recordStep data s e = some s') : s.records <+: s'.records := by
  rcases DecisionsAux.step_rows (DecisionsAux.step_of h) with ⟨hrows, -⟩ | ⟨i, a, -, hrows, -⟩
  · unfold DecisionsState.records
    rw [hrows]
  · unfold DecisionsState.records
    rw [hrows, List.map_append]
    exact List.prefix_append _ _

/-- The categories of the second statement add up to the rows it counts. -/
theorem categories_sum (since : Timestamp) (rows : List TransactionRecord) :
    ((summaryCategories since rows).map (·.2)).sum = (madeSince since rows).length := by
  unfold summaryCategories
  have hcounts := List.sum_map_count_dedup_eq_length ((madeSince since rows).map (·.category))
  rw [List.length_map] at hcounts
  rw [List.map_map]
  exact hcounts

theorem fraud_le (since : Timestamp) (rows : List TransactionRecord) :
    (summaryTotals since rows).2 ≤ (summaryTotals since rows).1 := List.length_filter_le _ _

/-- A table that has grown has as many rows made since a time just if every such row was there. -/
theorem madeSince_length_iff {since : Timestamp} {rows laterRows : List TransactionRecord} (hn : laterRows.Nodup)
    (hp : rows <+: laterRows) : (madeSince since rows).length = (madeSince since laterRows).length ↔
      ∀ t ∈ laterRows, since ≤ t.createdAt → t ∈ rows := by
  obtain ⟨new, rfl⟩ := hp
  unfold madeSince
  rw [List.filter_append, List.length_append, left_eq_add, List.length_eq_zero_iff, List.filter_eq_nil_iff]
  constructor
  · intro hnone t ht hmade
    rcases List.mem_append.mp ht with ht | ht
    · exact ht
    · exact absurd (decide_eq_true hmade) (hnone t ht)
  · intro hseen t ht hmade
    have htr := hseen t (List.mem_append_right _ ht) (of_decide_eq_true hmade)
    exact (List.nodup_append.mp hn).2.2 t htr t ht rfl

/-- Where no such row is new, the tables have the same rows made since a time. -/
theorem madeSince_eq {since : Timestamp} {rows laterRows : List TransactionRecord} (hp : rows <+: laterRows)
    (h : (madeSince since rows).length = (madeSince since laterRows).length) : madeSince since rows = madeSince since laterRows := by
  obtain ⟨new, rfl⟩ := hp
  unfold madeSince at *
  rw [List.filter_append, List.length_append, left_eq_add, List.length_eq_zero_iff] at h
  rw [List.filter_append, h, List.append_nil]

/-! ## The statements of a call -/

theorem follows_mono {records records' : List TransactionRecord} {call : SummaryPhase} (h : call.Follows records)
    (hp : records <+: records') : call.Follows records' := by
  cases call with
  | called since => trivial
  | totalled since totals rows => exact ⟨h.1, h.2.trans hp⟩
  | returned since summary rows laterRows => exact ⟨h.1, h.2.1.trans hp, h.2.2⟩

/-- What a statement does. -/
theorem statement_cases {records : List TransactionRecord} {call call' : SummaryPhase} {statement : SummaryStatement}
    (h : call.step records statement = some call') :
    (∃ since, call = .called since ∧ call' = .totalled since (summaryTotals since records) records) ∨
      ∃ since totals rows, call = .totalled since totals rows ∧
        call' = .returned since ⟨totals.1, totals.2, summaryCategories since records⟩ rows records := by
  unfold SummaryPhase.step at h
  split at h
  · cases h
    exact .inl ⟨_, rfl, rfl⟩
  · cases h
    exact .inr ⟨_, _, _, rfl, rfl⟩
  · cases h

theorem statement_follows {records : List TransactionRecord} {call call' : SummaryPhase} {statement : SummaryStatement}
    (h : call.step records statement = some call') (hf : call.Follows records) : call'.Follows records := by
  rcases statement_cases h with ⟨since, rfl, rfl⟩ | ⟨since, totals, rows, rfl, rfl⟩
  · exact ⟨rfl, List.prefix_refl _⟩
  · obtain ⟨rfl, hp⟩ := hf
    exact ⟨hp, List.prefix_refl _, rfl⟩

/-! ## A call beside calls of `record_decision` -/

theorem summarizing_inv {data : Position → TransactionData} {s : DecisionsState × SummaryPhase}
    (h : (summarizing data).Reachable s) : (decisions data).Reachable s.1 ∧ s.2.Follows s.1.records := by
  refine @StepSystem.Reachable.invariant _ _ (summarizing data)
    (fun s => (decisions data).Reachable s.1 ∧ s.2.Follows s.1.records) ?_ ?_ s h
  · rintro s ⟨since, rfl⟩
    exact ⟨.start rfl, trivial⟩
  · intro s e s' hi hstep
    cases e with
    | record event =>
      obtain ⟨decisions', hd, rfl⟩ := Option.map_eq_some_iff.mp hstep
      exact ⟨.step hi.1 trivial hd, follows_mono hi.2 (step_records hd)⟩
    | statement statement =>
      obtain ⟨call, hc, rfl⟩ := Option.map_eq_some_iff.mp hstep
      exact ⟨hi.1, statement_follows hc hi.2⟩

/-- A summary whose statements have seen these tables is consistent just if they count the same rows. -/
theorem consistent_iff {since : Timestamp} {rows laterRows : List TransactionRecord} {summary : Summary}
    (hn : laterRows.Nodup) (hp : rows <+: laterRows)
    (h : summary = ⟨(summaryTotals since rows).1, (summaryTotals since rows).2, summaryCategories since laterRows⟩) :
    summary.Consistent since rows laterRows ↔ ∀ t ∈ laterRows, since ≤ t.createdAt → t ∈ rows := by
  subst h
  rw [← madeSince_length_iff hn hp]
  constructor
  · intro hc
    have htotal := hc.total
    simp only [categories_sum] at htotal
    exact htotal
  · intro hlength
    refine ⟨?_, fraud_le since rows, rows, List.prefix_refl _, hp, ?_⟩
    · simp only [categories_sum]
      exact hlength
    · have hsame := madeSince_eq hp hlength
      unfold summaryOf summaryCategories
      rw [hsame]

/-! ## The runs -/

/-- The time a call counts from. -/
def since : SummaryPhase → Timestamp
  | .called since | .totalled since _ _ | .returned since _ _ _ => since

/-- The table as the first statement saw it. -/
def firstRows : SummaryPhase → List TransactionRecord → Prop
  | .called _, _ => False
  | .totalled _ _ rows, rows' | .returned _ _ rows _, rows' => rows' = rows

/-- A run comes before another: its window begins no later, and it sees no more. -/
def Before (run later : SummaryRun) : Prop :=
  run.startedAt ≤ later.startedAt ∧ run.since ≤ later.since ∧ run.rows <+: later.rows

/-- What a run has counted of a table that has grown since. -/
structure RunInv (settings : BatchSettings) (s : BatchState) (run : SummaryRun) : Prop where
  started : run.startedAt ≤ s.now
  since : run.since = run.startedAt - settings.windowHours * hour
  rows : run.rows <+: s.decisions.records
  total : run.summary.total = (madeSince run.since run.rows).length

/-- What holds of the run that is going on. -/
structure CallInv (settings : BatchSettings) (s : BatchState) (startedAt : Timestamp) (call : SummaryPhase) : Prop where
  started : startedAt ≤ s.now
  since : BatchAux.since call = startedAt - settings.windowHours * hour
  follows : call.Follows s.decisions.records
  after : ∀ run ∈ s.runs, run.startedAt ≤ startedAt ∧ ∀ rows, firstRows call rows → run.rows <+: rows

/-- What holds in every reachable state: what each run has counted, and their order. -/
structure BatchInv (data : Position → TransactionData) (settings : BatchSettings) (s : BatchState) : Prop where
  decisions : (FraudDetection.decisions data).Reachable s.decisions
  runs : ∀ run ∈ s.runs, RunInv settings s run
  order : s.runs.Pairwise Before
  call : ∀ startedAt call, s.phase = .running startedAt call → CallInv settings s startedAt call

/-- A step after which there are the same runs, and no other call, keeps the invariant. -/
theorem inv_same {data : Position → TransactionData} {settings : BatchSettings} {s s' : BatchState} (h : BatchInv data settings s)
    (hnow : s.now ≤ s'.now) (hd : (decisions data).Reachable s'.decisions) (hrecords : s.decisions.records <+: s'.decisions.records)
    (hruns : s'.runs = s.runs) (hphase : ∀ startedAt call, s'.phase = .running startedAt call → s.phase = s'.phase) :
    BatchInv data settings s' := by
  refine ⟨hd, ?_, hruns ▸ h.order, ?_⟩
  · intro run hrun
    rw [hruns] at hrun
    have hi := h.runs run hrun
    exact ⟨hi.started.trans hnow, hi.since, hi.rows.trans hrecords, hi.total⟩
  · intro startedAt call hcall
    have hi := h.call startedAt call ((hphase startedAt call hcall).trans hcall)
    exact ⟨hi.started.trans hnow, hi.since, follows_mono hi.follows hrecords, by rw [hruns]; exact hi.after⟩

/-- A step that only moves the worker keeps the invariant when the phase it leads to is no run. -/
theorem inv_phase {data : Position → TransactionData} {settings : BatchSettings} {s : BatchState} {phase : BatchPhase}
    (h : BatchInv data settings s) (hphase : ∀ startedAt call, phase ≠ .running startedAt call) :
    BatchInv data settings { s with phase := phase } :=
  inv_same h le_rfl h.decisions (List.prefix_refl _) rfl fun startedAt call hcall => absurd hcall (hphase startedAt call)

/-- A run that begins comes after those before it. -/
theorem inv_begin {data : Position → TransactionData} {settings : BatchSettings} {s : BatchState} (h : BatchInv data settings s) :
    BatchInv data settings
      { s with phase := .running s.now (.called (s.now - settings.windowHours * hour)) } := by
  refine ⟨h.decisions, fun run hrun => ?_, h.order, ?_⟩
  · have hi := h.runs run hrun
    exact ⟨hi.started, hi.since, hi.rows, hi.total⟩
  · intro startedAt call hcall
    cases hcall
    exact ⟨le_rfl, rfl, trivial, fun run hrun => ⟨(h.runs run hrun).started, fun rows hrows => hrows.elim⟩⟩

/-- The first statement sees all that the runs before have seen. -/
theorem inv_totalled {data : Position → TransactionData} {settings : BatchSettings} {s : BatchState} {startedAt since : Timestamp}
    (h : BatchInv data settings s) (hp : s.phase = .running startedAt (.called since)) :
    BatchInv data settings
      { s with phase := .running startedAt (.totalled since (summaryTotals since s.decisions.records) s.decisions.records) } := by
  have hi := h.call startedAt _ hp
  refine ⟨h.decisions, fun run hrun => ?_, h.order, ?_⟩
  · have hrun' := h.runs run hrun
    exact ⟨hrun'.started, hrun'.since, hrun'.rows, hrun'.total⟩
  · intro startedAt' call hcall
    cases hcall
    refine ⟨hi.started, hi.since, ⟨rfl, List.prefix_refl _⟩, fun run hrun => ⟨(hi.after run hrun).1, ?_⟩⟩
    rintro rows rfl
    exact (h.runs run hrun).rows

/-- A run that returns is the last one. -/
theorem inv_returned {data : Position → TransactionData} {settings : BatchSettings} {s : BatchState} {startedAt since : Timestamp}
    {totals : ℕ × ℕ} {rows : List TransactionRecord} {categories : List (String × ℕ)} (h : BatchInv data settings s)
    (hp : s.phase = .running startedAt (.totalled since totals rows)) :
    BatchInv data settings
      { s with phase := .scheduling, runs := s.runs ++ [⟨startedAt, since, ⟨totals.1, totals.2, categories⟩, rows⟩] } := by
  have hi := h.call startedAt _ hp
  obtain ⟨rfl, hrows⟩ := hi.follows
  have hsince : since = startedAt - settings.windowHours * hour := hi.since
  refine ⟨h.decisions, fun run hrun => ?_, List.pairwise_append.mpr ⟨h.order, List.pairwise_singleton _ _, ?_⟩, ?_⟩
  · rcases List.mem_append.mp hrun with hrun | hrun
    · have hrun' := h.runs run hrun
      exact ⟨hrun'.started, hrun'.since, hrun'.rows, hrun'.total⟩
    · rw [List.mem_singleton.mp hrun]
      exact ⟨hi.started, hsince, hrows, rfl⟩
  · intro run hrun later hlater
    rw [List.mem_singleton.mp hlater]
    obtain ⟨hstarted, hseen⟩ := hi.after run hrun
    refine ⟨hstarted, ?_, hseen rows rfl⟩
    rw [(h.runs run hrun).since, hsince]
    exact sub_le_sub_right hstarted _
  · intro startedAt' call hcall
    cases hcall

/-- A statement of a run keeps the invariant. -/
theorem inv_statement {data : Position → TransactionData} {settings : BatchSettings} {s s' : BatchState}
    {statement : SummaryStatement} (h : BatchInv data settings s) (hs : batchStep data settings s (.statement statement) = some s') :
    BatchInv data settings s' := by
  simp only [batchStep] at hs
  split at hs
  · rename_i startedAt call hp
    split at hs
    · rename_i since summary rows laterRows hstep
      cases hs
      rcases statement_cases hstep with ⟨since', -, hcall⟩ | ⟨since', totals, rows', rfl, hcall⟩
      · cases hcall
      · cases hcall
        exact inv_returned h hp
    · rename_i call' hnot hstep
      cases hs
      rcases statement_cases hstep with ⟨since', rfl, rfl⟩ | ⟨since', totals, rows', rfl, rfl⟩
      · exact inv_totalled h hp
      · exact absurd rfl (hnot _ _ _ _)
    · cases hs
  · cases hs

theorem inv_step {data : Position → TransactionData} {settings : BatchSettings} {s s' : BatchState} {e : BatchEvent}
    (h : BatchInv data settings s) (hs : batchStep data settings s e = some s') : BatchInv data settings s' := by
  cases e with
  | tick elapsed =>
    cases hs
    exact inv_same h (Int.le_add_of_nonneg_right (Int.natCast_nonneg elapsed)) h.decisions (List.prefix_refl _) rfl fun _ _ _ => rfl
  | record event =>
    simp only [batchStep] at hs
    split at hs
    · obtain ⟨decisions', hd, rfl⟩ := Option.map_eq_some_iff.mp hs
      exact inv_same h le_rfl (.step h.decisions trivial hd) (step_records hd) rfl fun _ _ _ => rfl
    · cases hs
  | statement statement => exact inv_statement h hs
  | begin =>
    simp only [batchStep] at hs
    split at hs
    · cases hs
      exact inv_begin h
    · cases hs
  | _ =>
    simp only [batchStep] at hs
    repeat' split at hs
    all_goals
      cases hs
      try exact inv_phase h (by simp)

theorem inv_reachable {data : Position → TransactionData} {settings : BatchSettings} {s : BatchState}
    (h : (batchWorker data settings).Reachable s) : BatchInv data settings s := by
  refine StepSystem.Reachable.invariant ?_ ?_ h
  · rintro s ⟨now, rfl⟩
    exact ⟨.start rfl, by simp, .nil, by simp⟩
  · intro s e s' hi hs
    exact inv_step hi hs

/-- A run counts what its window reaches and it sees. -/
theorem counts_eq (run : SummaryRun) (t : TransactionRecord) : run.counts t = (run.reaches t && run.sees t) := by
  unfold SummaryRun.counts SummaryRun.reaches SummaryRun.sees madeSince
  rw [Bool.eq_iff_iff]
  simp [and_comm]

/-- What a run counts are the rows it sees that were made since its start. -/
theorem counts_filter {run : SummaryRun} {records : List TransactionRecord} (hn : records.Nodup) (hp : run.rows <+: records) :
    records.filter run.counts = madeSince run.since run.rows := by
  obtain ⟨new, rfl⟩ := hp
  have hold : run.rows.filter run.counts = madeSince run.since run.rows := by
    refine List.filter_congr fun t ht => ?_
    unfold SummaryRun.counts madeSince
    simp [ht]
  have hnew : new.filter run.counts = [] := by
    refine List.filter_eq_nil_iff.mpr fun t ht hcounts => ?_
    have hseen : t ∈ run.rows := List.mem_of_mem_filter (of_decide_eq_true hcounts)
    exact (List.nodup_append.mp hn).2.2 t hseen t ht rfl
  rw [List.filter_append, hold, hnew, List.append_nil]

end BatchAux

open BatchAux

/-- A summary is consistent just if no decision made since its start is committed between its two statements. -/
theorem summary_consistent_iff {data : Position → TransactionData} {s : DecisionsState × SummaryPhase}
    (h : (summarizing data).Reachable s) {since : Timestamp} {summary : Summary} {rows laterRows : List TransactionRecord}
    (hreturned : s.2 = .returned since summary rows laterRows) :
    summary.Consistent since rows laterRows ↔ ∀ t ∈ laterRows, since ≤ t.createdAt → t ∈ rows := by
  obtain ⟨hreach, hfollows⟩ := summarizing_inv h
  rw [hreturned] at hfollows
  obtain ⟨hp, hlater, hsummary⟩ := hfollows
  exact consistent_iff ((DecisionsAux.records_nodup hreach).sublist hlater.sublist) hp hsummary

namespace BatchExample

open DecisionsExample

/-- The summary a call has returned. -/
def returned : SummaryPhase → Option Summary
  | .returned _ summary _ _ => some summary
  | _ => none

/-- A decision is made, at a time. -/
def recorded (createdAt : Timestamp) : List RecordEvent :=
  [.begin 0 ⟨decision "ZAR" 0, provenance 0⟩, .insertDecision 0 createdAt, .insertHistory 0, .commit 0 true]

/-- A decision is committed between the two statements. -/
def torn : List SummaryEvent := .statement .totals :: (recorded 5).map .record ++ [.statement .categories]

/-- A decision is committed before the two statements. -/
def whole : List SummaryEvent := (recorded 5).map .record ++ [.statement .totals, .statement .categories]

theorem torn_returned : ((summarizing data).run (.empty, .called 0) torn).map (fun s => returned s.2) =
    some (some ⟨0, 0, [("GROCERIES", 1)]⟩) := rfl

theorem whole_returned : ((summarizing data).run (.empty, .called 0) whole).map Prod.snd =
    some (.returned 0 ⟨1, 0, [("GROCERIES", 1)]⟩ [transactionRecord (decision "ZAR" 0) 5] [transactionRecord (decision "ZAR" 0) 5]) :=
  rfl

end BatchExample

open BatchExample DecisionsExample in
/-- A call whose two statements see the same decision. -/
theorem summary_consistent_iff_whole :
    Summary.Consistent 0 [transactionRecord (decision "ZAR" 0) 5] [transactionRecord (decision "ZAR" 0) 5] ⟨1, 0, [("GROCERIES", 1)]⟩ := by
  obtain ⟨s, hrun, hs⟩ := Option.map_eq_some_iff.mp whole_returned
  exact (summary_consistent_iff (StepSystem.Reachable.run (.start ⟨0, rfl⟩) hrun) hs).mpr fun t ht _ => ht

open BatchExample DecisionsExample in
/-- A decision committed between the statements is in no total, and in its category. -/
theorem summary_consistent_false : ¬∀ (data : Position → TransactionData) (s : DecisionsState × SummaryPhase)
    (since : Timestamp) (summary : Summary) (rows laterRows : List TransactionRecord), (summarizing data).Reachable s →
      s.2 = .returned since summary rows laterRows → summary.Consistent since rows laterRows := by
  intro hall
  obtain ⟨s, hrun, hs⟩ := Option.map_eq_some_iff.mp torn_returned
  cases hphase : s.2 with
  | returned since summary rows laterRows =>
    rw [hphase] at hs
    injection hs with hs
    have htotal := (hall data s since summary rows laterRows (StepSystem.Reachable.run (.start ⟨0, rfl⟩) hrun) hphase).total
    rw [hs] at htotal
    cases htotal
  | called since => rw [hphase] at hs; cases hs
  | totalled since totals rows => rw [hphase] at hs; cases hs

/-- A decision made since the first run is counted by exactly one run just if it is committed when the last one counts, and each
run sees it just if the window of the next run no longer reaches it. -/
theorem decision_countedOnce_iff {data : Position → TransactionData} {settings : BatchSettings} {s : BatchState}
    (h : (batchWorker data settings).Reachable s) {first : SummaryRun} {later : List SummaryRun} (hruns : s.runs = first :: later)
    {t : TransactionRecord} (hafter : first.startedAt ≤ t.createdAt) :
    (∀ run ∈ s.runs, run.summary.total = (s.decisions.records.filter run.counts).length) ∧
      (s.runs.countP (·.counts t) = 1 ↔
        t ∈ ((first :: later).getLast (List.cons_ne_nil first later)).rows ∧
          s.runs.IsChain fun run next => t ∈ run.rows ↔ t.createdAt < next.since) := by
  have hi := inv_reachable h
  refine ⟨fun run hrun => ?_, ?_⟩
  · have hr := hi.runs run hrun
    have hnodup : s.decisions.records.Nodup := DecisionsAux.records_nodup hi.decisions
    rw [hr.total, counts_filter hnodup hr.rows]
  have horder := hi.order
  have hfirst := hi.runs first (hruns ▸ List.mem_cons_self)
  rw [hruns] at horder ⊢
  have hreach : first.reaches t = true := by
    refine decide_eq_true ?_
    rw [hfirst.since]
    have : (0 : ℤ) ≤ settings.windowHours * hour := Int.mul_nonneg (Int.natCast_nonneg _) (by decide)
    unfold Timestamp at *
    omega
  have hwindows := @Windows.countP_eq_one_iff _ (SummaryRun.reaches · t) (SummaryRun.sees · t) _ _
    (horder.imp fun hb hr => decide_eq_true (hb.2.1.trans (of_decide_eq_true hr)))
    (horder.imp fun hb hs => decide_eq_true (hb.2.2.subset (of_decide_eq_true hs))) hreach
  simp only [counts_eq]
  rw [hwindows]
  simp [SummaryRun.reaches, SummaryRun.sees]

namespace BatchExample

open DecisionsExample

/-- A run a day, at two in the morning, of the last twenty-four hours. -/
def settings : BatchSettings where
  runHour := 2
  runMinute := 0
  windowHours := 24
  hour_ok := by decide
  minute_ok := by decide
  window_ok := by decide

/-- A run of the summary, of a worker that wakes. -/
def summaryRun : List BatchEvent := [.wake, .begin, .statement .totals, .statement .categories, .schedule]

/-- A run at two, a decision two seconds later, and the next day's run so many seconds late. -/
def twoDays (late : ℕ) : List BatchEvent :=
  .schedule :: .tick 7200000000 :: summaryRun ++ .tick 2000000 :: (recorded 7202000000).map .record ++
    .tick (86398000000 + late * 1000000) :: summaryRun

/-- The decision. -/
def made : TransactionRecord := transactionRecord (decision "ZAR" 0) 7202000000

/-- The run of the first day, which has seen nothing. -/
def firstRun : SummaryRun := ⟨7200000000, -79200000000, ⟨0, 0, []⟩, []⟩

/-- The run of the second day, which has seen the decision. -/
def secondRun : SummaryRun := ⟨93600000000, 7200000000, ⟨1, 0, [("GROCERIES", 1)]⟩, [made]⟩

/-- The run of the second day five seconds late, which has seen the decision and does not count it. -/
def lateRun : SummaryRun := ⟨93605000000, 7205000000, ⟨0, 0, []⟩, [made]⟩

theorem punctual_runs : ((batchWorker data settings).run ⟨0, .empty, .scheduling, []⟩ (twoDays 0)).map (·.runs) =
    some [firstRun, secondRun] := by decide +kernel

theorem late_runs : ((batchWorker data settings).run ⟨0, .empty, .scheduling, []⟩ (twoDays 5)).map
    (fun s => (s.runs, s.decisions.records)) = some ([firstRun, lateRun], [made]) := by decide +kernel

end BatchExample

open BatchExample DecisionsExample in
/-- Two punctual runs count the decision once. -/
theorem decision_countedOnce_iff_punctual : [firstRun, secondRun].countP (·.counts made) = 1 := by
  obtain ⟨s, hrun, hs⟩ := Option.map_eq_some_iff.mp punctual_runs
  rw [← hs]
  refine (decision_countedOnce_iff (StepSystem.Reachable.run (.start ⟨0, rfl⟩) hrun) hs ?_).2.mpr ⟨List.mem_singleton_self made, ?_⟩
  · decide
  · rw [hs, List.isChain_pair]
    decide

open BatchExample DecisionsExample in
/-- The second run is five seconds late, and neither run counts a decision made two seconds after the first. -/
theorem decision_countedOnce_false : ¬∀ (data : Position → TransactionData) (settings : BatchSettings) (s : BatchState)
    (first : SummaryRun) (later : List SummaryRun) (t : TransactionRecord), settings.windowHours = 24 →
      (batchWorker data settings).Reachable s → s.runs = first :: later → t ∈ s.decisions.records → first.startedAt ≤ t.createdAt →
      t.createdAt < ((first :: later).getLast (List.cons_ne_nil first later)).startedAt →
      s.runs.countP (·.counts t) = 1 := by
  intro hall
  obtain ⟨s, hrun, hs⟩ := Option.map_eq_some_iff.mp late_runs
  injection hs with hruns hrecords
  have hone := hall data settings s firstRun [lateRun] made rfl (StepSystem.Reachable.run (.start ⟨0, rfl⟩) hrun) hruns
    (by rw [hrecords]; exact List.mem_singleton_self made) (by decide) (by decide)
  rw [hruns] at hone
  exact absurd hone (by decide)

end FraudDetection
