import FraudDetection.Processing
import FraudDetection.Theorems.Handling
import FraudDetection.Theorems.Parsing
import FraudDetection.Theorems.Traceability

/-!
# Stored decisions are those of sequential processing

An owner comes to a message only when the transactions of all messages before it are stored. So where a transaction is not stored yet,
its velocity query sees exactly what processing the messages before it, once and in order, would have written; and where it is stored,
what the query sees makes no difference, since the first decision stays.
-/

namespace FraudDetection

variable {reader : EventReader} {levels : ℕ}

/-- The transaction at the position of a message of the log is that of its event. -/
theorem PartitionedLog.data_message (log : PartitionedLog reader levels) {key : TopicPartition} {message : Message}
    {event : TransactionCreatedV1} (hm : message ∈ log.messages key)
    (hp : parseTransactionEvent reader levels message.value = .ok event) :
    log.data message.provenance.position = event.data := by
  have hfind : (log.messages key).find? (fun m => decide (m.offset = message.offset)) = some message := by
    obtain ⟨before, after, hsplit⟩ := List.append_of_mem hm
    have hordered := log.ordered key
    rw [hsplit, List.pairwise_append] at hordered
    have hnone : before.find? (fun m => decide (m.offset = message.offset)) = none := by
      rw [List.find?_eq_none]
      intro m hbefore heq
      have := hordered.2.2 m hbefore message List.mem_cons_self
      have := of_decide_eq_true heq
      omega
    rw [hsplit, List.find?_append, hnone, List.find?_cons_of_pos (by simp)]
    rfl
  have hplaced : (message.topic, message.partition) = key := log.placed key message hm
  rw [← hplaced] at hfind
  unfold PartitionedLog.data
  rw [show (log.messages (message.provenance.position.1, message.provenance.position.2.1)).find?
    (fun m => decide (m.offset = message.provenance.position.2.2)) = some message from hfind]
  simp only [hp]

/-- So no call for a scored event is refused for its transaction. -/
theorem PartitionedLog.data_decision (log : PartitionedLog reader levels) {key : TopicPartition} {message : Message}
    {event : TransactionCreatedV1} (hm : message ∈ log.messages key)
    (hp : parseTransactionEvent reader levels message.value = .ok event) (ruleSet : RuleSet) (score : Score) :
    (transactionDecision event ruleSet score).data = log.data message.provenance.position := by
  rw [log.data_message hm hp]
  rfl

/-- The transaction is stored. -/
def ProcessingState.Stored (s : ProcessingState) (id : Uuid) : Prop := ∃ t ∈ s.decisions.transactions.rows, t.key = id

/-- The transactions of the first `n` messages of a partition are stored, except for the messages that are refused. -/
def ProcessingState.Complete (log : PartitionedLog reader levels) (s : ProcessingState) (key : TopicPartition) (n : ℕ) : Prop :=
  ∀ j < n, ∀ message event, (log.messages key)[j]? = some message →
    parseTransactionEvent reader levels message.value = .ok event → s.Stored event.transactionId

/-- A scoring of the `j`th message of a partition. -/
structure Scoring.Of (log : PartitionedLog reader levels) (ruleSet : RuleSet) (scoring : Scoring) (key : TopicPartition) (j : ℕ)
    (message : Message) : Prop where
  message_eq : (log.messages key)[j]? = some message
  parsed : parseTransactionEvent reader levels message.value = .ok scoring.event
  ruleSet_eq : scoring.ruleSet = ruleSet
  scored : scoreTransaction scoring.rows ruleSet.definition (.ofEvent scoring.event) = .ok scoring.score

/-- What the velocity query saw of a user is what processing the messages before this one would have written. -/
def Scoring.Exact (log : PartitionedLog reader levels) (ruleSet : RuleSet) (scoring : Scoring) (key : TopicPartition) (j : ℕ) : Prop :=
  (ScoreInput.ofEvent scoring.event).velocity scoring.rows ruleSet.definition.velocityWindowSeconds =
    (ScoreInput.ofEvent scoring.event).velocity (processAll reader levels ruleSet ((log.messages key).take j))
      ruleSet.definition.velocityWindowSeconds

/-- A row is the decision of a scoring whose velocity counts every earlier message of the partition, and neither its own transaction nor
a later one. -/
structure ScoredInOrder (log : PartitionedLog reader levels) (ruleSet : RuleSet) (scoring : Scoring) (key : TopicPartition) (j : ℕ)
    (t : StoredDecision) : Prop where
  source : ∃ message, scoring.Of log ruleSet key j message ∧ t.source = message.provenance
  made : ∃ now, t.record = transactionRecord scoring.decision now
  exact : scoring.Exact log ruleSet key j
  own : ∀ row ∈ processAll reader levels ruleSet ((log.messages key).take j), row.transactionId ≠ scoring.event.transactionId
  earlier : ∀ i < j, ∀ message event, (log.messages key)[i]? = some message →
    parseTransactionEvent reader levels message.value = .ok event →
    ∃ row ∈ processAll reader levels ruleSet ((log.messages key).take j), row.transactionId = event.transactionId

namespace ProcessingAux

/-! ## Velocity -/

/-- The velocity of a transaction depends on the rows of its user, and not on when they were written. -/
theorem velocity_congr {rows rows' : List TransactionRecord} {input : ScoreInput} {window : ℕ}
    (h : (rows.filter (·.userId = input.userId)).map (·.toTransactionDecision) =
      (rows'.filter (·.userId = input.userId)).map (·.toTransactionDecision)) :
    input.velocity rows window = input.velocity rows' window := by
  refine TimestampsAux.velocity_of_aggregates ?_
  -- the rows in the window are among those of the user
  have hmatching : ∀ (rows : List TransactionRecord) (p : TransactionDecision → Bool),
      (rows.filter fun row => decide (row.userId = input.userId) && p row.toTransactionDecision).map
          (·.toTransactionDecision) =
        ((rows.filter (·.userId = input.userId)).map (·.toTransactionDecision)).filter p := by
    intro rows p
    rw [List.filter_map, List.filter_filter]
    congr 1
    refine List.filter_congr fun row _ => ?_
    simp only [Function.comp_apply, Bool.and_comm]
  have hwindow : ∀ rows : List TransactionRecord,
      velocityAggregates rows input.userId (input.occurredAt - window * 1000000) input.occurredAt input.excludeTransactionId
          input.currency =
        let found := ((rows.filter (·.userId = input.userId)).map (·.toTransactionDecision)).filter fun d =>
          decide (input.occurredAt - window * 1000000 ≤ d.occurredAt) && decide (d.occurredAt ≤ input.occurredAt) &&
            decide (d.transactionId ≠ input.excludeTransactionId)
        (found.length, sumAmounts ((found.filter fun d => d.currency = input.currency).map (·.amount))) := by
    intro rows
    unfold velocityAggregates
    dsimp only
    rw [← hmatching, List.length_map, List.filter_map, List.map_map]
    simp only [Bool.and_assoc]
    rfl
  rw [hwindow rows, hwindow rows', h]

/-- A score depends on the rows through the velocity alone. -/
theorem score_congr {rows rows' : List TransactionRecord} {definition : RuleSetDefinition} {input : ScoreInput}
    (h : input.velocity rows definition.velocityWindowSeconds = input.velocity rows' definition.velocityWindowSeconds) :
    scoreTransaction rows definition input = scoreTransaction rows' definition input := by
  unfold scoreTransaction
  rw [h]

/-! ## Sequential processing -/

/-- A message is skipped whose transaction is stored, or that is refused. -/
theorem processOnce_skip {ruleSet : RuleSet} {rows : List TransactionRecord} {message : Message}
    (h : ∀ event, parseTransactionEvent reader levels message.value = .ok event →
      ∃ row ∈ rows, row.transactionId = event.transactionId) : processOnce reader levels ruleSet rows message = rows := by
  unfold processOnce
  split
  · rfl
  · rename_i event hp
    split
    · rfl
    · rw [if_pos (h event hp)]

/-- One more message. -/
theorem processAll_succ {ruleSet : RuleSet} {messages : List Message} {j : ℕ} {message : Message} (h : messages[j]? = some message) :
    processAll reader levels ruleSet (messages.take (j + 1)) =
      processOnce reader levels ruleSet (processAll reader levels ruleSet (messages.take j)) message := by
  unfold processAll
  rw [List.take_add_one, h, List.foldl_append]
  rfl

/-- Messages whose transactions are stored change nothing. -/
theorem processAll_skip {ruleSet : RuleSet} {messages : List Message} {j n : ℕ} (hjn : j ≤ n)
    (h : ∀ i, j ≤ i → i < n → ∀ message event, messages[i]? = some message →
      parseTransactionEvent reader levels message.value = .ok event →
      ∃ row ∈ processAll reader levels ruleSet (messages.take j), row.transactionId = event.transactionId) :
    processAll reader levels ruleSet (messages.take n) = processAll reader levels ruleSet (messages.take j) := by
  induction n, hjn using Nat.le_induction with
  | base => rfl
  | succ n hle ih =>
    have hbefore := ih fun i hji hin => h i hji (Nat.lt_succ_of_lt hin)
    cases hm : messages[n]? with
    | none =>
      rw [List.take_add_one, hm]
      simp only [Option.toList_none, List.append_nil]
      exact hbefore
    | some message =>
      rw [processAll_succ hm, hbefore]
      exact processOnce_skip fun event hp => h n hle (Nat.lt_succ_self n) message event hm hp

/-- A new transaction is scored with what is stored before it. -/
theorem processOnce_new {ruleSet : RuleSet} {rows : List TransactionRecord} {message : Message} {event : TransactionCreatedV1}
    {score : Score} (hp : parseTransactionEvent reader levels message.value = .ok event)
    (hs : scoreTransaction rows ruleSet.definition (.ofEvent event) = .ok score)
    (hn : ¬∃ row ∈ rows, row.transactionId = event.transactionId) :
    processOnce reader levels ruleSet rows message =
      rows ++ [transactionRecord (transactionDecision event ruleSet score) 0] := by
  unfold processOnce
  simp only [hp, hs, if_neg hn]

/-! ## The invariant -/

/-- The message of an owner has been settled: it is processed, or it is to be dead-lettered. -/
def Settled (h : Handling) : Prop := h.phase = .returned true ∨ h.pendingLetter ≠ none ∨ ∃ letter, h.phase = .publishing letter

/-- Where an owner is with its message. -/
def PhaseInv (s : ProcessingState) (reader : EventReader) (levels : ℕ) (message : Message) : ProcessPhase → Prop
  | .parsing => True
  | .scoring event => parseTransactionEvent reader levels message.value = .ok event
  | .recording call => ∃ arguments event, (s.decisions.phase call).call? = some arguments ∧
      parseTransactionEvent reader levels message.value = .ok event ∧ arguments.decision.transactionId = event.transactionId

/-- An owner has completed what comes before its message, and the message too once it is settled. -/
structure OwnerInv (log : PartitionedLog reader levels) (s : ProcessingState) (o : Owner) : Prop where
  before : s.Complete log o.partition o.position
  handling : ∀ h phase, o.handling = some (h, phase) → ∃ message, o.message log = some message ∧
    PhaseInv s reader levels message phase ∧
    (Settled h → ∀ event, parseTransactionEvent reader levels message.value = .ok event → s.Stored event.transactionId)

/-- The arguments of a call come from a scoring, which is exact unless the transaction is stored. -/
def CallInv (log : PartitionedLog reader levels) (ruleSet : RuleSet) (s : ProcessingState) (i : ℕ) (call : RecordCall) : Prop :=
  ∃ scoring key j message, s.scorings i = some scoring ∧ scoring.Of log ruleSet key j message ∧ call.provenance = message.provenance ∧
    call.decision = scoring.decision ∧ s.Complete log key j ∧
    (s.Stored scoring.event.transactionId ∨ scoring.Exact log ruleSet key j)

/-- A row comes from a scoring in order. -/
def RowInv (log : PartitionedLog reader levels) (ruleSet : RuleSet) (s : ProcessingState) (t : StoredDecision) : Prop :=
  ∃ scoring key j, s.scorings t.call = some scoring ∧ ScoredInOrder log ruleSet scoring key j t

/-- The rows of a partition are those of a prefix of it. -/
def PrefixInv (log : PartitionedLog reader levels) (ruleSet : RuleSet) (s : ProcessingState) (key : TopicPartition) : Prop :=
  ∃ n, (s.rowsOf key).map (·.record.toTransactionDecision) =
      (processAll reader levels ruleSet ((log.messages key).take n)).map (·.toTransactionDecision) ∧ s.Complete log key n

structure Inv (log : PartitionedLog reader levels) (ruleSet : RuleSet) (s : ProcessingState) : Prop where
  decisions : (FraudDetection.decisions log.data).Reachable s.decisions
  calls : ∀ i call, (s.decisions.phase i).call? = some call → CallInv log ruleSet s i call
  rows : ∀ t ∈ s.decisions.transactions.rows, RowInv log ruleSet s t
  prefixes : ∀ key, PrefixInv log ruleSet s key
  owners : ∀ i o, s.owners i = some o → OwnerInv log s o
  committed : ∀ key, s.Complete log key (s.committed key)

variable {settings : WorkerSettings} {ruleSet : RuleSet} {log : PartitionedLog reader levels}

/-! ## Stored rows stay -/

theorem complete_mono {s s' : ProcessingState} (hs : ∀ id, s.Stored id → s'.Stored id) {key : TopicPartition} {n : ℕ}
    (h : s.Complete log key n) : s'.Complete log key n :=
  fun j hj message event hm hp => hs _ (h j hj message event hm hp)

theorem ownerInv_mono {s s' : ProcessingState} (hs : ∀ id, s.Stored id → s'.Stored id)
    (hcalls : ∀ i call, (s.decisions.phase i).call? = some call → (s'.decisions.phase i).call? = some call) {o : Owner}
    (h : OwnerInv log s o) : OwnerInv log s' o where
  before := complete_mono hs h.before
  handling hd phase heq := by
    obtain ⟨message, hm, hphase, hsettled⟩ := h.handling hd phase heq
    refine ⟨message, hm, ?_, fun hset event hp => hs _ (hsettled hset event hp)⟩
    cases phase with
    | parsing => trivial
    | scoring event => exact hphase
    | recording call =>
      obtain ⟨arguments, event, hc, hp, hid⟩ := hphase
      exact ⟨arguments, event, hcalls call arguments hc, hp, hid⟩

/-- A change that leaves the calls and the tables as they are. -/
theorem inv_frame {s s' : ProcessingState} (h : Inv log ruleSet s) (hdecisions : s'.decisions = s.decisions)
    (hscorings : s'.scorings = s.scorings) (howners : ∀ i o, s'.owners i = some o → OwnerInv log s' o)
    (hcommitted : ∀ key, s'.Complete log key (s'.committed key)) : Inv log ruleSet s' := by
  have hstored : ∀ id, s'.Stored id ↔ s.Stored id := by
    intro id
    unfold ProcessingState.Stored
    rw [hdecisions]
  have hmono : ∀ id, s.Stored id → s'.Stored id := fun id hid => (hstored id).mpr hid
  refine ⟨by rw [hdecisions]; exact h.decisions, fun i call hc => ?_, fun t ht => ?_, fun key => ?_, howners, hcommitted⟩
  · rw [hdecisions] at hc
    obtain ⟨scoring, key, j, message, hscoring, hof, hsource, hdecision, hbefore, hexact⟩ := h.calls i call hc
    exact ⟨scoring, key, j, message, by rw [hscorings]; exact hscoring, hof, hsource, hdecision, complete_mono hmono hbefore,
      hexact.imp_left (hmono _)⟩
  · rw [hdecisions] at ht
    obtain ⟨scoring, key, j, hscoring, hinOrder⟩ := h.rows t ht
    exact ⟨scoring, key, j, by rw [hscorings]; exact hscoring, hinOrder⟩
  · obtain ⟨n, hrows, hbefore⟩ := h.prefixes key
    refine ⟨n, ?_, complete_mono hmono hbefore⟩
    unfold ProcessingState.rowsOf at hrows ⊢
    rw [hdecisions]
    exact hrows

/-- An owner goes on. -/
theorem inv_setOwner {s : ProcessingState} (h : Inv log ruleSet s) {i : ℕ} {o : Owner} (ho : OwnerInv log s o) :
    Inv log ruleSet (s.setOwner i o) := by
  refine inv_frame h rfl rfl (fun j o' hj => ?_) fun key => h.committed key
  have hmono : ∀ o', OwnerInv log s o' → OwnerInv log (s.setOwner i o) o' := by
    intro o' ho'
    refine ownerInv_mono ?_ ?_ ho'
    · exact fun id hid => hid
    · exact fun j call hc => hc
  simp only [ProcessingState.setOwner] at hj
  rcases StepSystem.update_cases hj with ⟨rfl, hnew⟩ | ⟨-, hj⟩
  · cases hnew
    exact hmono o ho
  · exact hmono o' (h.owners j o' hj)

/-! ## Rows and prefixes -/

/-- A row comes from the partition of its message. -/
theorem source_eq {scoring : Scoring} {key : TopicPartition} {j : ℕ} {t : StoredDecision}
    (h : ScoredInOrder log ruleSet scoring key j t) : (t.source.topic, t.source.partition) = key := by
  obtain ⟨message, hof, hsource⟩ := h.source
  rw [hsource]
  exact log.placed key message (List.mem_of_getElem? hof.message_eq)

/-- A transaction that is stored is in the rows of the partition of its events. -/
theorem stored_rowsOf {s : ProcessingState} (h : Inv log ruleSet s) {key : TopicPartition} {message : Message}
    {event : TransactionCreatedV1} (hm : message ∈ log.messages key)
    (hp : parseTransactionEvent reader levels message.value = .ok event) {t : StoredDecision}
    (ht : t ∈ s.decisions.transactions.rows)
    (hsame : t.record.userId = event.userId ∨ t.record.transactionId = event.transactionId) : t ∈ s.rowsOf key := by
  obtain ⟨scoring, key', j, -, hinOrder⟩ := h.rows t ht
  obtain ⟨message', hof, -⟩ := hinOrder.source
  obtain ⟨now, hrecord⟩ := hinOrder.made
  have hsame' : event.userId = scoring.event.userId ∨ event.transactionId = scoring.event.transactionId := by
    rw [hrecord] at hsame
    exact hsame.imp Eq.symm Eq.symm
  have hpartition : key = key' :=
    log.apart key key' message message' event scoring.event hm (List.mem_of_getElem? hof.message_eq) hp hof.parsed hsame'
  unfold ProcessingState.rowsOf
  refine List.mem_filter.mpr ⟨ht, decide_eq_true ?_⟩
  rw [source_eq hinOrder, hpartition]

/-- The transactions of a partition that are stored are those of its prefix. -/
theorem mem_sequential {s : ProcessingState} {key : TopicPartition} {rows : List TransactionRecord}
    (hrows : (s.rowsOf key).map (·.record.toTransactionDecision) = rows.map (·.toTransactionDecision)) {id : Uuid} :
    (∃ row ∈ rows, row.transactionId = id) ↔ ∃ t ∈ s.rowsOf key, t.record.transactionId = id := by
  have hids : (s.rowsOf key).map (·.record.transactionId) = rows.map (·.transactionId) := by
    have hmap := congrArg (List.map (·.transactionId)) hrows
    rw [List.map_map, List.map_map] at hmap
    exact hmap
  constructor
  · rintro ⟨row, hr, rfl⟩
    have hid : row.transactionId ∈ rows.map (·.transactionId) := List.mem_map_of_mem hr
    rw [← hids] at hid
    exact List.mem_map.mp hid
  · rintro ⟨t, ht, rfl⟩
    have hid : t.record.transactionId ∈ (s.rowsOf key).map (·.record.transactionId) := List.mem_map_of_mem ht
    rw [hids] at hid
    exact List.mem_map.mp hid

/-- Where the messages before one are complete and its transaction is not stored, the rows of its partition are those of the messages
before it. -/
theorem rows_before {s : ProcessingState} (h : Inv log ruleSet s) {key : TopicPartition} {j : ℕ} {message : Message}
    {event : TransactionCreatedV1} (hm : (log.messages key)[j]? = some message)
    (hp : parseTransactionEvent reader levels message.value = .ok event) (hbefore : s.Complete log key j)
    (hnew : ¬s.Stored event.transactionId) :
    (s.rowsOf key).map (·.record.toTransactionDecision) =
      (processAll reader levels ruleSet ((log.messages key).take j)).map (·.toTransactionDecision) := by
  obtain ⟨n, hrows, hcomplete⟩ := h.prefixes key
  have hle : n ≤ j := not_lt.mp fun hlt => hnew (hcomplete j hlt message event hm hp)
  rw [hrows, processAll_skip hle]
  intro i _ hij message' event' hm' hp'
  obtain ⟨t, ht, hkey⟩ := hbefore i hij message' event' hm' hp'
  exact (mem_sequential hrows).mpr ⟨t, stored_rowsOf h (List.mem_of_getElem? hm') hp' ht (.inr hkey), hkey⟩

/-- And a velocity query sees exactly them. -/
theorem exact_before {s : ProcessingState} (h : Inv log ruleSet s) {key : TopicPartition} {j : ℕ} {message : Message}
    {event : TransactionCreatedV1} (hm : (log.messages key)[j]? = some message)
    (hp : parseTransactionEvent reader levels message.value = .ok event) (hbefore : s.Complete log key j)
    (hnew : ¬s.Stored event.transactionId) (window : ℕ) :
    (ScoreInput.ofEvent event).velocity s.rows window =
      (ScoreInput.ofEvent event).velocity (processAll reader levels ruleSet ((log.messages key).take j)) window := by
  have hrows := rows_before h hm hp hbefore hnew
  refine velocity_congr ?_
  -- the rows of the user are rows of the partition
  have huser : s.rows.filter (·.userId = event.userId) =
      ((s.rowsOf key).map (·.record)).filter (·.userId = event.userId) := by
    unfold ProcessingState.rows
    rw [List.filter_map, List.filter_map]
    congr 1
    unfold ProcessingState.rowsOf
    rw [List.filter_filter]
    refine List.filter_congr fun t ht => ?_
    simp only [Function.comp_apply]
    by_cases hu : t.record.userId = event.userId
    · have hmem := stored_rowsOf h (List.mem_of_getElem? hm) hp ht (.inl hu)
      unfold ProcessingState.rowsOf at hmem
      rw [(List.mem_filter.mp hmem).2, Bool.and_true]
    · rw [decide_eq_false hu, Bool.false_and]
  have hcomm : ∀ rows : List TransactionRecord, (rows.filter (·.userId = event.userId)).map (·.toTransactionDecision) =
      (rows.map (·.toTransactionDecision)).filter (·.userId = event.userId) := by
    intro rows
    rw [List.filter_map]
    rfl
  show (s.rows.filter (·.userId = event.userId)).map (·.toTransactionDecision) = _
  rw [huser, hcomm]
  show _ = ((processAll reader levels ruleSet ((log.messages key).take j)).filter (·.userId = event.userId)).map
    (·.toTransactionDecision)
  rw [hcomm, ← hrows, List.map_map]
  rfl

/-! ## Steps of an owner -/

/-- A pass starts with a letter at hand, or with none. -/
theorem settled_pass {h : Handling} {stopping : Bool} (hset : Settled (h.pass stopping)) : h.pendingLetter ≠ none := by
  unfold Handling.pass at hset
  intro hn
  cases stopping with
  | true =>
    simp only [if_true] at hset
    rcases hset with hset | hset | ⟨letter, hset⟩
    · cases hset
    · exact hset hn
    · cases hset
  | false =>
    simp only [Bool.false_eq_true, if_false, hn] at hset
    rcases hset with hset | hset | ⟨letter, hset⟩
    · cases hset
    · exact hset rfl
    · cases hset

theorem settled_retry {h : Handling} {random : Random} (hset : Settled (h.retry settings random)) : h.pendingLetter ≠ none := by
  unfold Handling.retry at hset
  split at hset
  · rcases hset with hset | hset | ⟨letter, hset⟩
    · cases hset
    · exact hset
    · cases hset
  · rcases hset with hset | hset | ⟨letter, hset⟩
    · cases hset
    · exact hset
    · cases hset

theorem unexpected_pass (h : Handling) (stopping : Bool) : (h.pass stopping).unexpectedFailures = h.unexpectedFailures := by
  unfold Handling.pass
  split
  · rfl
  · rfl

theorem unexpected_retry (h : Handling) (random : Random) :
    (h.retry settings random).unexpectedFailures = h.unexpectedFailures := by
  unfold Handling.retry
  split
  · rfl
  · rfl

/-- Without unexpected failures, a message is settled when it is processed or when processing it fails for good. -/
theorem settled_step {message : Message} {stopping : Bool} {h h' : Handling} {event : HandlingEvent}
    (hs : h.step settings message stopping event = some h') (hexpected : h'.unexpectedFailures = 0) (hset : Settled h') :
    Settled h ∨ (∃ correlationId random, event = .processed (.ok ()) correlationId random) ∨
      ∃ error correlationId random, event = .processed (.error error) correlationId random ∧
        classifyFailure error = .permanent := by
  cases event with
  | processed result correlationId random =>
    cases result with
    | ok _ => exact .inr (.inl ⟨correlationId, random, rfl⟩)
    | error error =>
      simp only [Handling.step] at hs
      split at hs
      · cases hs
        unfold Handling.fail at hexpected hset
        dsimp only at hexpected hset
        split_ifs at hexpected hset with hunexpected hend hend
        · rw [unexpected_pass] at hexpected
          cases hexpected
        · rw [unexpected_retry] at hexpected
          cases hexpected
        · rcases hend with hend | hend
          · exact .inr (.inr ⟨error, correlationId, random, rfl, hend⟩)
          · exact absurd hend.1 hunexpected
        · have hpending := settled_retry hset
          exact .inl (.inr (.inl hpending))
      · cases hs
  | published result random =>
    simp only [Handling.step] at hs
    split at hs
    · rename_i letter hphase
      exact .inl (.inr (.inr ⟨letter, hphase⟩))
    · cases hs
  | wake =>
    simp only [Handling.step] at hs
    split at hs
    · cases hs
      exact .inl (.inr (.inl (settled_pass hset)))
    · cases hs
  | cancel =>
    have hpending : h'.pendingLetter = h.pendingLetter ∧ h'.phase = .raised .cancelledError := by
      simp only [Handling.step] at hs
      split at hs
      · cases hs
        exact ⟨rfl, rfl⟩
      · cases hs
        exact ⟨rfl, rfl⟩
      · cases hs
        exact ⟨rfl, rfl⟩
      · cases hs
    rw [Settled, hpending.1, hpending.2] at hset
    rcases hset with hset | hset | ⟨letter, hset⟩
    · cases hset
    · exact .inl (.inr (.inl hset))
    · cases hset

/-- `_handle` goes on with its message, which is settled only if it is stored or refused. -/
theorem inv_advance {s : ProcessingState} (h : Inv log ruleSet s) {i : ℕ} {o o' : Owner} (ho : s.owners i = some o)
    {hd : Handling} {phase : ProcessPhase} (hhandling : o.handling = some (hd, phase)) {message : Message}
    (hm : o.message log = some message) {event : HandlingEvent} (hs : o.advance settings message hd event = some o')
    (hexpected : (s.setOwner i o').Expected)
    (hsettles : (∃ correlationId random, event = .processed (.ok ()) correlationId random) ∨
      (∃ error correlationId random, event = .processed (.error error) correlationId random ∧
        classifyFailure error = .permanent) →
      ∀ e, parseTransactionEvent reader levels message.value = .ok e → s.Stored e.transactionId) :
    Inv log ruleSet (s.setOwner i o') := by
  obtain ⟨hd', hstep, rfl⟩ := Option.map_eq_some_iff.mp hs
  have hold := h.owners i o ho
  have hzero : hd'.unexpectedFailures = 0 := hexpected i _ hd' .parsing (Function.update_self ..) rfl
  refine inv_setOwner h ⟨hold.before, fun hd'' phase' heq => ?_⟩
  cases heq
  refine ⟨message, hm, trivial, fun hset => ?_⟩
  rcases settled_step hstep hzero hset with hset | hset
  · obtain ⟨message', hm', -, hdone⟩ := hold.handling hd phase hhandling
    rw [hm] at hm'
    cases hm'
    exact hdone hset
  · exact hsettles hset

/-- A call of `record_decision` that returns, or raises for a conflicting duplicate, finds its transaction stored. -/
theorem stored_of_ended {s : ProcessingState} (h : Inv log ruleSet s) {i : ℕ} {call : RecordCall}
    (he : (∃ result, s.decisions.phase i = .returned call result) ∨ s.decisions.phase i = .raised call .conflictingDuplicate) :
    s.Stored call.decision.transactionId := by
  have hknown := (DecisionsAux.inv_reachable h.decisions).known i
  rcases he with ⟨result, he⟩ | he
  · rw [he] at hknown
    obtain ⟨hresult, hmade, -⟩ := hknown
    unfold RecordResult.Known at hresult
    cases ho : result.outcome with
    | evaluated =>
      obtain ⟨t, ht, hm⟩ := hmade ho
      exact ⟨t, ht, DecisionsAux.madeBy_key hm⟩
    | duplicate =>
      rw [ho] at hresult
      obtain ⟨t, ht, hkey, -⟩ := hresult
      exact ⟨t, ht, hkey⟩
  · rw [he] at hknown
    obtain ⟨t, ht, hkey, -⟩ := hknown
    exact ⟨t, ht, hkey⟩

/-- A scored event is recorded: the call begins with an exact decision, unless the transaction is stored. -/
theorem inv_score {s : ProcessingState} (h : Inv log ruleSet s) {i : ℕ} {o : Owner} (ho : s.owners i = some o) {hd : Handling}
    (scoring : Scoring) (hhandling : o.handling = some (hd, .scoring scoring.event)) {message : Message}
    (hm : o.message log = some message) (hrows : scoring.rows = s.rows) (hruleSet : scoring.ruleSet = ruleSet)
    (hscore : scoreTransaction scoring.rows ruleSet.definition (.ofEvent scoring.event) = .ok scoring.score) {call : ℕ}
    {decisions : DecisionsState}
    (hs : recordStep log.data s.decisions (.begin call ⟨scoring.decision, message.provenance⟩) = some decisions) :
    Inv log ruleSet { s.setOwner i { o with handling := some (hd, .recording call) } with
      decisions := decisions
      scorings := Function.update s.scorings call (some scoring) } := by
  have hreach : (FraudDetection.decisions log.data).Reachable decisions := DecisionsAux.reachable_step h.decisions hs
  have hold := h.owners i o ho
  obtain ⟨message', hm', hparsed, hsettled⟩ := hold.handling hd (.scoring scoring.event) hhandling
  rw [hm] at hm'
  cases hm'
  obtain ⟨habsent, rfl⟩ := DecisionsAux.begin_some hs
  have hself : (s.decisions.setPhase call (.called ⟨scoring.decision, message.provenance⟩)).phase call =
      .called ⟨scoring.decision, message.provenance⟩ := Function.update_self ..
  have hphase : ∀ j, j ≠ call →
      (s.decisions.setPhase call (.called ⟨scoring.decision, message.provenance⟩)).phase j = s.decisions.phase j :=
    fun j hj => Function.update_of_ne hj ..
  have hscorings : ∀ j, j ≠ call → Function.update s.scorings call (some scoring) j = s.scorings j :=
    fun j hj => Function.update_of_ne hj ..
  have hcalls : ∀ j arguments, (s.decisions.phase j).call? = some arguments →
      ((s.decisions.setPhase call (.called ⟨scoring.decision, message.provenance⟩)).phase j).call? = some arguments := by
    intro j arguments hj
    rw [hphase j]
    · exact hj
    · rintro rfl
      rw [habsent] at hj
      cases hj
  refine ⟨hreach, fun j arguments hj => ?_, fun t ht => ?_, h.prefixes, fun j o' hj => ?_, h.committed⟩
  · dsimp only at hj
    by_cases heq : j = call
    · subst heq
      rw [hself] at hj
      cases hj
      refine ⟨scoring, o.partition, o.position, message, Function.update_self .., ⟨hm, hparsed, hruleSet, hscore⟩, rfl, rfl,
        hold.before, ?_⟩
      by_cases hstored : s.Stored scoring.event.transactionId
      · exact .inl hstored
      · refine .inr ?_
        unfold Scoring.Exact
        rw [hrows]
        exact exact_before h hm hparsed hold.before hstored _
    · rw [hphase j heq] at hj
      obtain ⟨scoring', key, n, m, hscoring, hrest⟩ := h.calls j arguments hj
      exact ⟨scoring', key, n, m, (hscorings j heq).trans hscoring, hrest⟩
  · obtain ⟨scoring', key, n, hscoring, hinOrder⟩ := h.rows t ht
    have hne : t.call ≠ call := by
      intro heq
      have hmay := ((DecisionsAux.inv_reachable h.decisions).made t ht).1
      rw [heq, habsent] at hmay
      exact hmay
    exact ⟨scoring', key, n, (hscorings t.call hne).trans hscoring, hinOrder⟩
  · simp only [ProcessingState.setOwner] at hj
    rcases StepSystem.update_cases hj with ⟨rfl, hnew⟩ | ⟨-, hj⟩
    · cases hnew
      refine ⟨hold.before, fun hd' phase' hh => ?_⟩
      cases hh
      refine ⟨message, hm, ⟨⟨scoring.decision, message.provenance⟩, scoring.event, ?_, hparsed, rfl⟩, hsettled⟩
      dsimp only
      rw [hself]
      rfl
    · refine ownerInv_mono ?_ ?_ (h.owners j o' hj)
      · exact fun id hid => hid
      · exact hcalls

/-! ## Steps of `record_decision` -/

/-- What a statement of a call commits: nothing, or the one row of a call that has not found its transaction stored. -/
theorem record_rows {s : ProcessingState} (h : Inv log ruleSet s) {e : RecordEvent} {decisions : DecisionsState}
    (hs : recordStep log.data s.decisions e = some decisions) :
    decisions.transactions.rows = s.decisions.transactions.rows ∨
      ∃ i call t, (s.decisions.phase i).call? = some call ∧ t.MadeBy i call ∧ ¬s.Stored call.decision.transactionId ∧
        decisions.transactions.rows = s.decisions.transactions.rows ++ [t] := by
  have hi := DecisionsAux.inv_reachable h.decisions
  have hstep := DecisionsAux.step_of hs
  rcases DecisionsAux.step_rows hstep with ⟨hrows, -⟩ | ⟨i, acknowledged, rfl, hrows, -⟩
  · exact .inl hrows
  · obtain ⟨call, result, hp⟩ : ∃ call result, s.decisions.phase i = .written call result := by
      simp only [recordStep] at hs
      split at hs
      · rename_i call result hp
        exact ⟨call, result, hp⟩
      · cases hs
    have hown := hi.ownT i
    rw [hp] at hown
    simp only [RecordPhase.OwnDecision] at hown
    cases ho : result.outcome with
    | duplicate =>
      rw [ho] at hown
      rw [hown, List.append_nil] at hrows
      exact .inl hrows
    | evaluated =>
      rw [ho] at hown
      obtain ⟨t, hown, hmade⟩ := hown
      rw [hown] at hrows
      refine .inr ⟨i, call, t, by rw [hp]; rfl, hmade, ?_, hrows⟩
      rintro ⟨t', ht', hkey⟩
      have hmem : t ∈ s.decisions.transactions.own i := by
        rw [hown]
        exact List.mem_singleton_self t
      exact hi.keyedT.ne_of_own ht' hmem (hkey.trans (DecisionsAux.madeBy_key hmade).symm)

/-- A row that is committed comes from a scoring in order. -/
theorem inOrder_commit {s : ProcessingState} (h : Inv log ruleSet s) {i : ℕ} {call : RecordCall} {t : StoredDecision}
    (hc : (s.decisions.phase i).call? = some call) (hmade : t.MadeBy i call) (hnew : ¬s.Stored call.decision.transactionId) :
    ∃ scoring key j, s.scorings t.call = some scoring ∧ ScoredInOrder log ruleSet scoring key j t ∧ s.Complete log key j ∧
      (s.rowsOf key).map (·.record.toTransactionDecision) =
        (processAll reader levels ruleSet ((log.messages key).take j)).map (·.toTransactionDecision) := by
  obtain ⟨scoring, key, j, message, hscoring, hof, hsource, hdecision, hbefore, hexact⟩ := h.calls i call hc
  have hid : call.decision.transactionId = scoring.event.transactionId := by
    rw [hdecision]
    rfl
  rw [hid] at hnew
  have hprefix := rows_before h hof.message_eq hof.parsed hbefore hnew
  obtain ⟨now, rfl⟩ := hmade
  refine ⟨scoring, key, j, hscoring, ⟨⟨message, hof, hsource⟩, ⟨now, by rw [hdecision]⟩, hexact.resolve_left hnew, ?_, ?_⟩,
    hbefore, hprefix⟩
  · intro row hrow hkey
    obtain ⟨t', ht', hkey'⟩ := (mem_sequential hprefix).mp ⟨row, hrow, hkey⟩
    exact hnew ⟨t', (List.mem_filter.mp ht').1, hkey'⟩
  · intro i hi message' event hm hp
    obtain ⟨t', ht', hkey⟩ := hbefore i hi message' event hm hp
    exact (mem_sequential hprefix).mpr ⟨t', stored_rowsOf h (List.mem_of_getElem? hm) hp ht' (.inr hkey), hkey⟩

/-- A row of a partition that is committed is what the next message of a prefix writes. -/
theorem prefix_commit {s s' : ProcessingState} (h : Inv log ruleSet s) {i : ℕ} {call : RecordCall} {t : StoredDecision}
    (hc : (s.decisions.phase i).call? = some call) (hmade : t.MadeBy i call)
    (hnew : ¬s.Stored call.decision.transactionId)
    (hrows : s'.decisions.transactions.rows = s.decisions.transactions.rows ++ [t]) (key : TopicPartition) :
    PrefixInv log ruleSet s' key := by
  have hmono : ∀ id, s.Stored id → s'.Stored id := by
    rintro id ⟨t', ht', hkey⟩
    exact ⟨t', by rw [hrows]; exact List.mem_append_left _ ht', hkey⟩
  have hrowsOf : ∀ k, s'.rowsOf k = s.rowsOf k ++ [t].filter fun t => (t.source.topic, t.source.partition) = k := by
    intro k
    unfold ProcessingState.rowsOf
    rw [hrows, List.filter_append]
  obtain ⟨scoring, key', j, -, hinOrder, hbefore, hprefix⟩ := inOrder_commit h hc hmade hnew
  obtain ⟨message, hof, -⟩ := hinOrder.source
  obtain ⟨now, hrecord⟩ := hinOrder.made
  by_cases heq : key = key'
  · subst heq
    have hscore := hof.scored
    rw [score_congr hinOrder.exact] at hscore
    have hfresh : ¬∃ row ∈ processAll reader levels ruleSet ((log.messages key).take j),
        row.transactionId = scoring.event.transactionId := by
      rintro ⟨row, hrow, hkey⟩
      exact hinOrder.own row hrow hkey
    refine ⟨j + 1, ?_, fun k hk message' event' hm' hp' => ?_⟩
    · rw [processAll_succ hof.message_eq, processOnce_new hof.parsed hscore hfresh, hrowsOf, List.map_append, List.map_append,
        hprefix]
      congr 1
      simp only [source_eq hinOrder, decide_true, List.filter_cons_of_pos, List.filter_nil, List.map_cons, List.map_nil]
      rw [hrecord, ← hof.ruleSet_eq]
      rfl
    · rcases Nat.lt_succ_iff_lt_or_eq.mp hk with hk | rfl
      · exact hmono _ (hbefore k hk message' event' hm' hp')
      · rw [hof.message_eq] at hm'
        cases hm'
        have hevent : scoring.event = event' := Except.ok.inj (hof.parsed.symm.trans hp')
        refine ⟨t, by rw [hrows]; exact List.mem_append_right _ (List.mem_singleton_self t), ?_⟩
        unfold StoredDecision.key
        rw [hrecord, ← hevent]
        rfl
  · obtain ⟨n, hold, hcomplete⟩ := h.prefixes key
    refine ⟨n, ?_, complete_mono hmono hcomplete⟩
    have hnone : ([t].filter fun t => (t.source.topic, t.source.partition) = key) = [] := by
      rw [List.filter_cons_of_neg, List.filter_nil]
      rw [source_eq hinOrder]
      simpa using fun hk : key' = key => heq hk.symm
    rw [hrowsOf, hnone, List.append_nil]
    exact hold

/-- A statement of a call, or its outcome. -/
theorem inv_record {s : ProcessingState} (h : Inv log ruleSet s) {e : RecordEvent} {decisions : DecisionsState}
    (hb : e.begins = false) (hs : recordStep log.data s.decisions e = some decisions) :
    Inv log ruleSet { s with decisions := decisions } := by
  have hreach : (FraudDetection.decisions log.data).Reachable decisions := DecisionsAux.reachable_step h.decisions hs
  have hcall : ∀ j, (decisions.phase j).call? = (s.decisions.phase j).call? :=
    TraceAux.step_call? (DecisionsAux.step_of hs) hb
  have hrows := record_rows h hs
  have hmono : ∀ id, s.Stored id → ProcessingState.Stored { s with decisions := decisions } id := by
    rintro id ⟨t, ht, hkey⟩
    refine ⟨t, ?_, hkey⟩
    rcases hrows with hrows | ⟨_, _, _, -, -, -, hrows⟩
    · dsimp only
      rw [hrows]
      exact ht
    · dsimp only
      rw [hrows]
      exact List.mem_append_left _ ht
  refine ⟨hreach, fun j arguments hj => ?_, fun t ht => ?_, fun key => ?_, fun j o hj => ?_,
    fun key => complete_mono hmono (h.committed key)⟩
  · dsimp only at hj
    rw [hcall] at hj
    obtain ⟨scoring, key, n, message, hscoring, hof, hsource, hdecision, hbefore, hexact⟩ := h.calls j arguments hj
    exact ⟨scoring, key, n, message, hscoring, hof, hsource, hdecision, complete_mono hmono hbefore, hexact.imp_left (hmono _)⟩
  · rcases hrows with hrows | ⟨i, call, new, hc, hmade, hnew, hrows⟩
    · dsimp only at ht
      rw [hrows] at ht
      exact h.rows t ht
    · dsimp only at ht
      rw [hrows] at ht
      rcases List.mem_append.mp ht with ht | ht
      · exact h.rows t ht
      · rw [List.mem_singleton.mp ht]
        obtain ⟨scoring, key, j, hscoring, hinOrder, -⟩ := inOrder_commit h hc hmade hnew
        exact ⟨scoring, key, j, hscoring, hinOrder⟩
  · rcases hrows with hrows | ⟨i, call, new, hc, hmade, hnew, hrows⟩
    · obtain ⟨n, hprefix, hcomplete⟩ := h.prefixes key
      refine ⟨n, ?_, complete_mono hmono hcomplete⟩
      unfold ProcessingState.rowsOf at hprefix ⊢
      dsimp only
      rw [hrows]
      exact hprefix
    · exact prefix_commit h hc hmade hnew hrows key
  · refine ownerInv_mono ?_ ?_ (h.owners j o hj)
    · exact hmono
    · exact fun k call hk => (hcall k).trans hk

/-! ## Runs -/

/-- Neither a call that returned nor a permanent failure has happened, so nothing is settled. -/
theorem inv_unsettled {s : ProcessingState} (h : Inv log ruleSet s) {i : ℕ} {o o' : Owner} (ho : s.owners i = some o)
    {hd : Handling} {phase : ProcessPhase} (hhandling : o.handling = some (hd, phase)) {message : Message}
    (hm : o.message log = some message) {event : HandlingEvent} (hs : o.advance settings message hd event = some o')
    (hexpected : (s.setOwner i o').Expected)
    (hprocessed : ∀ result correlationId random, event = .processed result correlationId random →
      ∃ error, result = .error error ∧ classifyFailure error ≠ .permanent) : Inv log ruleSet (s.setOwner i o') := by
  refine inv_advance h ho hhandling hm hs hexpected ?_
  rintro (⟨correlationId, random, heq⟩ | ⟨error, correlationId, random, heq, hpermanent⟩)
  · obtain ⟨error, herror, -⟩ := hprocessed _ _ _ heq
    cases herror
  · obtain ⟨error', herror, hnot⟩ := hprocessed _ _ _ heq
    cases herror
    exact absurd hpermanent hnot

/-- A step of an owner that does not fail unexpectedly. -/
theorem inv_owner {s s' : ProcessingState} (h : Inv log ruleSet s) {i : ℕ} {o : Owner} (ho : s.owners i = some o) {e : OwnerEvent}
    (hs : ownerStep settings ruleSet log s i o e = some s') (hexpected : s'.Expected) : Inv log ruleSet s' := by
  have hold := h.owners i o ho
  cases e with
  | take =>
    simp only [ownerStep] at hs
    split at hs
    · rename_i message hhandling hm
      split at hs
      · cases hs
      · cases hs
        refine inv_setOwner h ⟨hold.before, fun hd phase heq => ?_⟩
        cases heq
        exact ⟨message, hm, trivial, fun hset => absurd rfl (settled_pass hset)⟩
    · cases hs
  | parse correlationId random =>
    simp only [ownerStep] at hs
    split at hs
    · rename_i hd message hhandling hm
      split at hs
      · split at hs
        · rename_i error hp
          obtain ⟨o', ho', rfl⟩ := Option.map_eq_some_iff.mp hs
          refine inv_advance h ho hhandling hm ho' hexpected fun _ event hparsed => ?_
          rw [hp] at hparsed
          cases hparsed
        · rename_i event hp
          cases hs
          refine inv_setOwner h ⟨hold.before, fun hd' phase heq => ?_⟩
          cases heq
          obtain ⟨message', hm', -, hsettled⟩ := hold.handling hd .parsing hhandling
          rw [hm] at hm'
          cases hm'
          exact ⟨message, hm, hp, hsettled⟩
      · cases hs
    · cases hs
  | fail error correlationId random =>
    simp only [ownerStep] at hs
    split at hs
    · rename_i hd event message hhandling hm
      split at hs
      · cases hs
      · rename_i hnot
        obtain ⟨o', ho', rfl⟩ := Option.map_eq_some_iff.mp hs
        refine inv_unsettled h ho hhandling hm ho' hexpected fun result _ _ heq => ?_
        cases heq
        exact ⟨error, rfl, hnot⟩
    · cases hs
  | score call =>
    simp only [ownerStep] at hs
    split at hs
    · rename_i hd event message hhandling hm
      split at hs
      · cases hs
      · rename_i score hscore
        obtain ⟨decisions, hd', rfl⟩ := Option.map_eq_some_iff.mp hs
        exact inv_score h ho ⟨event, ruleSet, s.rows, score⟩ hhandling hm rfl rfl hscore hd'
    · cases hs
  | finish error correlationId random =>
    simp only [ownerStep] at hs
    split at hs
    · rename_i hd call message hhandling hm
      obtain ⟨message', hm', ⟨arguments, event, hcall, hparsed, hid⟩, -⟩ := hold.handling hd (.recording call) hhandling
      rw [hm] at hm'
      cases hm'
      -- a call that has ended well, or with a duplicate, finds the transaction of the message stored
      have hdone : s.Stored arguments.decision.transactionId →
          ∀ event', parseTransactionEvent reader levels message.value = .ok event' → s.Stored event'.transactionId := by
        intro hstored event' hp'
        rw [hparsed] at hp'
        cases hp'
        rw [← hid]
        exact hstored
      split at hs
      · rename_i arguments' result hphase
        rw [hphase] at hcall
        cases hcall
        obtain ⟨o', ho', rfl⟩ := Option.map_eq_some_iff.mp hs
        exact inv_advance h ho hhandling hm ho' hexpected fun _ => hdone (stored_of_ended h (.inl ⟨result, hphase⟩))
      · rename_i arguments' raised hphase
        rw [hphase] at hcall
        cases hcall
        split at hs
        · rename_i hraises
          obtain ⟨o', ho', rfl⟩ := Option.map_eq_some_iff.mp hs
          by_cases hconflict : raised = .conflictingDuplicate
          · rw [hconflict] at hphase
            exact inv_advance h ho hhandling hm ho' hexpected fun _ => hdone (stored_of_ended h (.inr hphase))
          · refine inv_unsettled h ho hhandling hm ho' hexpected fun result _ _ heq => ?_
            cases heq
            refine ⟨error, rfl, ?_⟩
            cases raised with
            | conflictingDuplicate => exact absurd rfl hconflict
            | outage => exact of_decide_eq_true hraises
            | refused => exact of_decide_eq_true hraises
            | attributeError => exact of_decide_eq_true hraises
        · cases hs
      · cases hs
    · cases hs
  | published result random =>
    simp only [ownerStep] at hs
    split at hs
    · rename_i hd phase message hhandling hm
      obtain ⟨o', ho', rfl⟩ := Option.map_eq_some_iff.mp hs
      refine inv_unsettled h ho hhandling hm ho' hexpected fun result _ _ heq => ?_
      cases heq
    · cases hs
  | wake =>
    simp only [ownerStep] at hs
    split at hs
    · rename_i hd phase message hhandling hm
      obtain ⟨o', ho', rfl⟩ := Option.map_eq_some_iff.mp hs
      refine inv_unsettled h ho hhandling hm ho' hexpected fun result _ _ heq => ?_
      cases heq
    · cases hs
  | handled =>
    simp only [ownerStep] at hs
    split at hs
    · rename_i hd phase hhandling
      split at hs
      · rename_i hphase
        cases hs
        obtain ⟨message, hm, -, hsettled⟩ := hold.handling hd phase hhandling
        refine inv_setOwner h ⟨fun j hj message' event hm' hp => ?_, fun hd' phase' heq => by cases heq⟩
        rcases Nat.lt_succ_iff_lt_or_eq.mp hj with hj | rfl
        · exact hold.before j hj message' event hm' hp
        · rw [show (log.messages o.partition)[o.position]? = some message from hm] at hm'
          cases hm'
          exact hsettled (.inl hphase) event hp
      · cases hs
        exact inv_setOwner h ⟨hold.before, fun hd' phase' heq => by cases heq⟩
      · cases hs
    · cases hs
  | stop =>
    cases hs
    exact inv_setOwner h ⟨hold.before, hold.handling⟩
  | commitOffset =>
    cases hs
    refine inv_frame h rfl rfl (fun j o' hj => ?_) fun key => ?_
    · refine ownerInv_mono ?_ ?_ (h.owners j o' hj)
      · exact fun id hid => hid
      · exact fun k call hk => hk
    · dsimp only
      by_cases heq : key = o.partition
      · rw [heq, Function.update_self]
        exact hold.before
      · rw [Function.update_of_ne heq]
        exact h.committed key

theorem inv_empty : Inv log ruleSet .empty where
  decisions := .start rfl
  calls i call hc := by cases hc
  rows t ht := absurd ht List.not_mem_nil
  prefixes key := ⟨0, rfl, fun j hj => absurd hj (Nat.not_lt_zero j)⟩
  owners i o ho := by cases ho
  committed key j hj := absurd hj (Nat.not_lt_zero j)

theorem inv_step {s s' : ProcessingState} (h : Inv log ruleSet s) {e : ProcessingEvent}
    (hs : processingStep settings ruleSet log s e = some s') (hexpected : s'.Expected) : Inv log ruleSet s' := by
  cases e with
  | own i key =>
    simp only [processingStep] at hs
    split at hs
    · cases hs
    · cases hs
      exact inv_setOwner h ⟨h.committed key, fun hd phase heq => by cases heq⟩
  | owner i event =>
    simp only [processingStep] at hs
    split at hs
    · cases hs
    · rename_i o ho
      exact inv_owner h ho hs hexpected
  | record event =>
    simp only [processingStep] at hs
    split at hs
    · cases hs
    · rename_i hb
      obtain ⟨decisions, hd, rfl⟩ := Option.map_eq_some_iff.mp hs
      exact inv_record h (by simpa using hb) hd
  | crash i =>
    cases hs
    refine inv_frame h rfl rfl (fun j o hj => ?_) h.committed
    dsimp only at hj
    rcases StepSystem.update_cases hj with ⟨-, hj⟩ | ⟨-, hj⟩
    · cases hj
    · refine ownerInv_mono ?_ ?_ (h.owners j o hj)
      · exact fun id hid => hid
      · exact fun k call hk => hk

end ProcessingAux

/-- A step after which no message that is being handled has failed with an unexpected error. -/
def ExpectedStep (settings : WorkerSettings) (ruleSet : RuleSet) (log : PartitionedLog reader levels) (s : ProcessingState)
    (e : ProcessingEvent) : Prop := ∀ s', processingStep settings ruleSet log s e = some s' → s'.Expected

open ProcessingAux

/-- Stored decisions are those of sequential processing: in every run without unexpected errors, the rows that come from a partition are
those that processing a prefix of it once, in order, would write; and each of them was scored in order. -/
theorem rows_sequential {settings : WorkerSettings} {ruleSet : RuleSet} {log : PartitionedLog reader levels} {s : ProcessingState}
    (h : (processing settings ruleSet log).ReachableWhen (ExpectedStep settings ruleSet log) s) (key : TopicPartition) :
    (∃ n, (s.rowsOf key).map (·.record.toTransactionDecision) =
        (processAll reader levels ruleSet ((log.messages key).take n)).map (·.toTransactionDecision)) ∧
      ∀ t ∈ s.rowsOf key, ∃ scoring j, s.scorings t.call = some scoring ∧ ScoredInOrder log ruleSet scoring key j t := by
  have hi : Inv log ruleSet s := by
    refine StepSystem.ReachableWhen.invariant ?_ ?_ h
    · rintro s rfl
      exact inv_empty
    · intro s e s' hi hg hs
      exact inv_step hi hs (hg s' hs)
  obtain ⟨n, hrows, -⟩ := hi.prefixes key
  refine ⟨⟨n, hrows⟩, fun t ht => ?_⟩
  obtain ⟨hmem, hkey⟩ := List.mem_filter.mp ht
  obtain ⟨scoring, key', j, hscoring, hinOrder⟩ := hi.rows t hmem
  have heq : key' = key := (source_eq hinOrder).symm.trans (of_decide_eq_true hkey)
  exact ⟨scoring, j, hscoring, heq ▸ hinOrder⟩

namespace ProcessingExample

open JsonDecode

/-! ## The events -/

/-- The text fields of an event of one user. -/
def fieldsOf (transactionId occurredAt : String) : List (String × String) := [
  ("event_type", "TransactionCreated"), ("transaction_id", transactionId),
  ("user_id", "00000000-0000-0000-0000-000000000001"), ("amount", "120"), ("currency", "ZAR"), ("category", "GROCERIES"),
  ("occurred_at", occurredAt)]

/-- Those of an event whose transaction id is the nil UUID. -/
def fields : List (String × String) := fieldsOf "00000000-0000-0000-0000-000000000000" "1970-01-01T00:00:00Z"

/-- Those of another transaction, half a minute later. -/
def laterFields : List (String × String) := fieldsOf "00000000-0000-0000-0000-000000000001" "1970-01-01T00:00:30Z"

/-- A field of an event, as JSON. -/
def fieldText (field : String × String) : PyStr :=
  JsonDecode.dumpsString (PyStr.ofString field.1) ++ 0x3A :: 0x20 :: JsonDecode.dumpsString (PyStr.ofString field.2)

/-- What follows the text fields. -/
def versionText : PyStr := JsonDecode.dumpsString (PyStr.ofString "schema_version") ++ [0x3A, 0x20, 0x31, 0x7D]

/-- The fields of an event, as JSON. -/
def body (fields : List (String × String)) : PyStr := (fields.flatMap fun field => fieldText field ++ [0x2C, 0x20]) ++ versionText

/-- An event, as JSON. -/
def document (fields : List (String × String)) : PyStr := 0x7B :: body fields

/-- What it decodes to. -/
def entries (fields : List (String × String)) : List (PyStr × DecimalJson) :=
  fields.map (fun field => (PyStr.ofString field.1, .str (PyStr.ofString field.2))) ++ [(PyStr.ofString "schema_version", .int 1)]

/-- Text fields that are written as they are: no character of them needs an escape. -/
def Plain (fields : List (String × String)) : Prop := ∀ field ∈ fields,
  (∀ c ∈ PyStr.ofString field.1, c ≠ 0x22 ∧ c ≠ 0x5C ∧ 0x1F < c) ∧ ∀ c ∈ PyStr.ofString field.2, c ≠ 0x22 ∧ c ≠ 0x5C ∧ 0x1F < c

theorem scan_fields {fields : List (String × String)} (hplain : Plain fields)
    {levels fuel : ℕ} {before : List (PyStr × DecimalJson)} {rest : PyStr} :
    scanEntries (scanOnceWith parseDecimal levels) (fuel + fields.length) before
        ((fields.flatMap fun field => fieldText field ++ [0x2C, 0x20]) ++ 0x22 :: rest) =
      scanEntries (scanOnceWith parseDecimal levels) fuel
        (fields.foldl (fun entries field => setEntry (PyStr.ofString field.1) (.str (PyStr.ofString field.2)) entries) before)
        (0x22 :: rest) := by
  induction fields generalizing before with
  | nil => rfl
  | cons field fields ih =>
    obtain ⟨hkey, hvalue⟩ := hplain field List.mem_cons_self
    have hnext : skipSpace (0x20 :: ((fields.flatMap fun field => fieldText field ++ [0x2C, 0x20]) ++ 0x22 :: rest)) =
        (fields.flatMap fun field => fieldText field ++ [0x2C, 0x20]) ++ 0x22 :: rest := by
      rw [JsonDecode.skipSpace_space]
      cases fields with
      | nil => exact JsonDecode.skipSpace_cons (by decide) _
      | cons field fields => exact JsonDecode.skipSpace_cons (by decide) _
    have htext : ((field :: fields).flatMap fun field => fieldText field ++ [0x2C, 0x20]) ++ 0x22 :: rest =
        JsonDecode.dumpsString (PyStr.ofString field.1) ++ 0x3A :: 0x20 :: (JsonDecode.dumpsString (PyStr.ofString field.2) ++
          0x2C :: 0x20 :: ((fields.flatMap fun field => fieldText field ++ [0x2C, 0x20]) ++ 0x22 :: rest)) := by
      simp [fieldText]
    rw [htext, List.length_cons, ← Nat.add_assoc, JsonDecode.scanEntries_string hkey hvalue _ _ _ _ (by decide), if_neg (by decide),
      if_pos rfl, hnext, ih fun field hf => hplain field (List.mem_cons_of_mem _ hf)]
    rfl

theorem fields_plain : Plain fields := by
  unfold Plain
  decide +kernel

theorem laterFields_plain : Plain laterFields := by
  unfold Plain
  decide +kernel

theorem version_plain : ∀ c ∈ PyStr.ofString "schema_version", c ≠ 0x22 ∧ c ≠ 0x5C ∧ 0x1F < c := by decide

theorem scan_one (levels : ℕ) : scanOnceWith parseDecimal levels [0x31, 0x7D] = .ok (.int 1, [0x7D]) := by
  have hconstant : scanConstant [0x31, 0x7D] = none := by rfl
  have hnumber : scanNumberWith parseDecimal [0x31, 0x7D] = .ok (.int 1, [0x7D]) := by rfl
  unfold scanOnceWith
  simp only [show ¬(0x31 = 0x22) by decide, show ¬(0x31 = 0x5B ∨ 0x31 = 0x7B) by decide, if_false, hconstant, hnumber]

/-- `versionText`, after its first quote. -/
def afterQuote : PyStr := PyStr.ofString "schema_version" ++ 0x22 :: [0x3A, 0x20, 0x31, 0x7D]

theorem versionText_eq : versionText = 0x22 :: afterQuote := by
  simp [versionText, afterQuote, JsonDecode.dumpsString]

theorem scan_version (levels fuel : ℕ) (before : List (PyStr × DecimalJson)) :
    scanEntries (scanOnceWith parseDecimal levels) (fuel + 1) before (0x22 :: afterQuote) =
      .ok (setEntry (PyStr.ofString "schema_version") (.int 1) before, []) := by
  have hquote : 0x22 :: afterQuote = JsonDecode.dumpsString (PyStr.ofString "schema_version") ++ 0x3A :: 0x20 :: 0x31 :: [0x7D] := by
    simp [afterQuote, JsonDecode.dumpsString]
  rw [hquote, JsonDecode.scanEntries_value version_plain (by decide) (scan_one levels) (by decide), if_pos rfl]

/-- The fields of an event are no shorter than their number. -/
theorem length_le_body (fields : List (String × String)) : fields.length ≤ (body fields).length := by
  have hfields : fields.length ≤ (fields.flatMap fun field => fieldText field ++ [0x2C, 0x20]).length := by
    induction fields with
    | nil => exact Nat.le_refl 0
    | cons field fields ih =>
      rw [List.flatMap_cons, List.length_append, List.length_append, List.length_cons]
      simp only [List.length_cons, List.length_nil]
      omega
  unfold body
  rw [List.length_append]
  omega

/-- Entries under distinct keys, set one after another. -/
theorem scan_body {fields : List (String × String)} (hplain : Plain fields)
    (hentries : setEntry (PyStr.ofString "schema_version") (.int 1) (fields.foldl
      (fun entries field => setEntry (PyStr.ofString field.1) (.str (PyStr.ofString field.2)) entries) []) = entries fields)
    (levels : ℕ) :
    scanEntries (scanOnceWith parseDecimal levels) ((body fields).length + 1) [] (body fields) = .ok (entries fields, []) := by
  obtain ⟨n, hn⟩ := Nat.exists_eq_add_of_le (length_le_body fields)
  have hfuel : (body fields).length + 1 = n + 1 + fields.length := by omega
  rw [hfuel]
  unfold body
  rw [versionText_eq, scan_fields hplain, scan_version, hentries]

theorem document_loads {fields : List (String × String)} (hplain : Plain fields) (hascii : ∀ c ∈ document fields, c < 0x80)
    (hquote : ∃ text, body fields = 0x22 :: text)
    (hentries : setEntry (PyStr.ofString "schema_version") (.int 1) (fields.foldl
      (fun entries field => setEntry (PyStr.ofString field.1) (.str (PyStr.ofString field.2)) entries) []) = entries fields) :
    loads 1000 ((document fields).map UInt8.ofNat) = .ok (.obj (entries fields)) := by
  obtain ⟨text, htext⟩ := hquote
  have hscan := scan_body hplain hentries 999
  unfold document at hascii ⊢
  rw [htext] at hascii hscan ⊢
  exact JsonDecode.loads_ascii (by decide) (by decide) (by decide) hascii (JsonDecode.scanOnce_object hscan)

theorem fields_loads : loads 1000 ((document fields).map UInt8.ofNat) = .ok (.obj (entries fields)) :=
  document_loads fields_plain (by decide +kernel) ⟨_, rfl⟩ rfl

theorem laterFields_loads : loads 1000 ((document laterFields).map UInt8.ofNat) = .ok (.obj (entries laterFields)) :=
  document_loads laterFields_plain (by decide +kernel) ⟨_, rfl⟩ rfl

/-- The epoch. -/
def epoch : AwareDatetime := ⟨0, 0, by decide, by decide⟩

theorem halfMinute_ok : datetimeMin ≤ 30000000 ∧ 30000000 ≤ datetimeMax := by decide

/-- Half a minute after it. -/
def halfMinute : AwareDatetime := { epoch with wall := 30000000, wall_ok := halfMinute_ok }

/-- A reader that reads what the events have, and refuses every other value. -/
def eventReader : EventReader :=
  { ParsingExample.reader with
    uuid := fun v =>
      match v with
      | .str s =>
        if s = PyStr.ofString "00000000-0000-0000-0000-000000000000" then .ok ⟨0⟩
        else if s = PyStr.ofString "00000000-0000-0000-0000-000000000001" then .ok ⟨1⟩
        else .error "Input should be a valid UUID"
      | _ => .error "Input should be a valid UUID"
    money := fun v =>
      match v with
      | .str s =>
        if s = PyStr.ofString "120" then .ok DecisionsExample.amount
        else .error "Decimal input should be an integer, float, string or Decimal object"
      | _ => .error "Decimal input should be an integer, float, string or Decimal object"
    aware := fun v =>
      match v with
      | .str s =>
        if s = PyStr.ofString "1970-01-01T00:00:00Z" then .ok epoch
        else if s = PyStr.ofString "1970-01-01T00:00:30Z" then .ok halfMinute
        else .error "Input should be a valid datetime"
      | _ => .error "Input should be a valid datetime" }

/-- The event, and the later one. -/
def event : TransactionCreatedV1 := VelocityExample.event
def laterEvent : TransactionCreatedV1 := { VelocityExample.event with transactionId := ⟨1⟩, occurredAt := 30000000 }

theorem modelValidate_entries : TransactionCreatedV1.modelValidate eventReader (entries fields) = some (.ok event) := by
  rfl

theorem modelValidate_later : TransactionCreatedV1.modelValidate eventReader (entries laterFields) = some (.ok laterEvent) := by
  rfl

/-! ## The log -/

/-- The two events are the messages of a partition. -/
def message : Message := ⟨"transactions", 0, 0, none, some ((document fields).map UInt8.ofNat), none⟩
def laterMessage : Message := ⟨"transactions", 0, 1, none, some ((document laterFields).map UInt8.ofNat), none⟩

theorem parse_document {fields : List (String × String)} {event : TransactionCreatedV1}
    (hloads : loads 1000 ((document fields).map UInt8.ofNat) = .ok (.obj (entries fields)))
    (hlength : (document fields).length ≤ maxEventBytes)
    (hversion : supportedVersion (DecimalJson.lookup (entries fields) "schema_version") = some true)
    (hvalid : TransactionCreatedV1.modelValidate eventReader (entries fields) = some (.ok event)) :
    parseTransactionEvent eventReader 1000 (some ((document fields).map UInt8.ofNat)) = .ok event := by
  rw [ParsingAux.parse_loads eventReader hloads (by rwa [List.length_map])]
  simp only [parseDocument, hversion, hvalid]

theorem parse_message : parseTransactionEvent eventReader 1000 message.value = .ok event :=
  parse_document fields_loads (by decide +kernel) (by decide) modelValidate_entries

theorem parse_later : parseTransactionEvent eventReader 1000 laterMessage.value = .ok laterEvent :=
  parse_document laterFields_loads (by decide +kernel) (by decide) modelValidate_later

/-- The log of these messages. -/
def log : PartitionedLog eventReader 1000 where
  messages key := if key = message.topicPartition then [message, laterMessage] else []
  placed key m hm := by
    split at hm
    · rename_i hkey
      rcases List.mem_cons.mp hm with rfl | hm
      · exact hkey.symm
      · rw [List.mem_singleton.mp hm, hkey]
        rfl
    · cases hm
  ordered key := by
    split
    · exact List.pairwise_pair.mpr Nat.zero_lt_one
    · exact .nil
  apart key key' m m' event event' hm hm' _ _ _ := by
    split at hm
    · split at hm'
      · rename_i hkey hkey'
        rw [hkey, hkey']
      · cases hm'
    · cases hm

theorem messages_key : log.messages message.topicPartition = [message, laterMessage] := by
  simp only [log, if_true]

/-! ## An owner -/

/-- The owner of the partition, before a message. -/
def owner (position : ℕ) : Owner := ⟨message.topicPartition, position, false, none⟩

/-- The owner at work on the message. -/
def working (position : ℕ) (h : Handling) (phase : ProcessPhase) : Owner := { owner position with handling := some (h, phase) }

/-- The state with one owner, and nothing committed. -/
def stateAt (i : ℕ) (decisions : DecisionsState) (scorings : ℕ → Option Scoring) (o : Owner) : ProcessingState :=
  ⟨decisions, Function.update (fun _ => none) i (some o), fun _ => 0, scorings⟩

/-- The state without an owner. -/
def vacant (decisions : DecisionsState) (scorings : ℕ → Option Scoring) : ProcessingState :=
  ⟨decisions, fun _ => none, fun _ => 0, scorings⟩

/-- The runs in which no message fails with an unexpected error. -/
abbrev Reached (s : ProcessingState) : Prop := (processing HandlingExample.settings VelocityExample.ruleSet log).ReachableWhen
  (ExpectedStep HandlingExample.settings VelocityExample.ruleSet log) s

section

variable {i position : ℕ} {decisions decisions' : DecisionsState} {scorings : ℕ → Option Scoring} {m : Message}
  (hm : (log.messages message.topicPartition)[position]? = some m)

theorem at_setOwner {o o' : Owner} : (stateAt i decisions scorings o).setOwner i o' = stateAt i decisions scorings o' := by
  unfold stateAt ProcessingState.setOwner
  rw [Function.update_idem]

theorem at_owner (o : Owner) : (stateAt i decisions scorings o).owners i = some o := by
  simp [stateAt]

/-- A step to a state whose message has not failed. -/
theorem reached_at {s : ProcessingState} {o : Owner} {e : ProcessingEvent} (h : Reached s)
    (hs : processingStep HandlingExample.settings VelocityExample.ruleSet log s e = some (stateAt i decisions scorings o))
    (hnone : ∀ hd phase, o.handling = some (hd, phase) → hd.unexpectedFailures = 0) : Reached (stateAt i decisions scorings o) := by
  refine .step h (fun s' hs' => ?_) hs
  rw [hs] at hs'
  cases hs'
  intro j o' hd phase ho hhandling
  simp only [stateAt] at ho
  rcases StepSystem.update_cases ho with ⟨-, ho⟩ | ⟨-, ho⟩
  · cases ho
    exact hnone hd phase hhandling
  · cases ho

/-- The owner is at rest, or its message has not failed. -/
theorem idle_expected {hd : Handling} {phase : ProcessPhase} (h : (owner position).handling = some (hd, phase)) :
    hd.unexpectedFailures = 0 := by
  cases h

theorem working_expected {hd : Handling} {phase : ProcessPhase} (hzero : hd.unexpectedFailures = 0) {hd' : Handling}
    {phase' : ProcessPhase} (h : (working position hd phase).handling = some (hd', phase')) : hd'.unexpectedFailures = 0 := by
  cases h
  exact hzero

/-- An owner starts. -/
theorem reached_own (h : Reached (vacant decisions scorings)) (i : ℕ) : Reached (stateAt i decisions scorings (owner 0)) :=
  reached_at (e := .own i message.topicPartition) h rfl fun _ _ => idle_expected

/-- An owner is killed. -/
theorem reached_crash {o : Owner} (h : Reached (stateAt i decisions scorings o)) : Reached (vacant decisions scorings) := by
  have hs : processingStep HandlingExample.settings VelocityExample.ruleSet log (stateAt i decisions scorings o) (.crash i) =
      some (vacant decisions scorings) := by
    simp only [processingStep, stateAt, Function.update_idem]
    rw [Function.update_eq_self_iff.mpr rfl]
    rfl
  refine .step (e := .crash i) h (fun s' hs' => ?_) hs
  rw [hs] at hs'
  cases hs'
  intro j o' hd phase ho
  cases ho

/-- The statements of a call of `record_decision` leave the owner where it is. -/
theorem reached_record {hd : Handling} {phase : ProcessPhase} (hzero : hd.unexpectedFailures = 0) (events : List RecordEvent)
    (hb : ∀ e ∈ events, e.begins = false) : ∀ {decisions : DecisionsState},
    Reached (stateAt i decisions scorings (working position hd phase)) →
    (FraudDetection.decisions log.data).run decisions events = some decisions' →
      Reached (stateAt i decisions' scorings (working position hd phase)) := by
  induction events with
  | nil =>
    intro decisions h hrun
    cases hrun
    exact h
  | cons e events ih =>
    intro decisions h hrun
    obtain ⟨middle, hmiddle, hrest⟩ := StepSystem.run_cons hrun
    have hs : processingStep HandlingExample.settings VelocityExample.ruleSet log
        (stateAt i decisions scorings (working position hd phase)) (.record e) =
          some (stateAt i middle scorings (working position hd phase)) := by
      have hstep : recordStep log.data decisions e = some middle := hmiddle
      simp only [processingStep, hb e List.mem_cons_self, stateAt, hstep]
      rfl
    exact ih (fun e he => hb e (List.mem_cons_of_mem _ he)) (reached_at h hs fun _ _ => working_expected hzero) hrest

include hm

theorem message_working (hd : Handling) (phase : ProcessPhase) : (working position hd phase).message log = some m := hm

/-- The owner takes the message and parses it. -/
theorem reached_parse {event : TransactionCreatedV1} (hp : parseTransactionEvent eventReader 1000 m.value = .ok event)
    (h : Reached (stateAt i decisions scorings (owner position))) :
    Reached (stateAt i decisions scorings (working position (.enter false) (.scoring event))) := by
  have htake : processingStep HandlingExample.settings VelocityExample.ruleSet log (stateAt i decisions scorings (owner position))
      (.owner i .take) = some (stateAt i decisions scorings (working position (.enter false) .parsing)) := by
    have hmessage : (owner position).message log = some m := hm
    have hidle : (owner position).handling = none := rfl
    have hgoes : (owner position).stopping = false := rfl
    simp only [processingStep, at_owner, ownerStep, hmessage, hidle, hgoes, at_setOwner]
    rfl
  have hparse : processingStep HandlingExample.settings VelocityExample.ruleSet log
      (stateAt i decisions scorings (working position (.enter false) .parsing)) (.owner i (.parse none 0)) =
        some (stateAt i decisions scorings (working position (.enter false) (.scoring event))) := by
    have hhandling : (working position (.enter false) .parsing).handling = some (.enter false, .parsing) := rfl
    have hphase : (Handling.enter false).phase = .processing := rfl
    simp only [processingStep, at_owner, ownerStep, message_working hm, hhandling, hphase, hp, at_setOwner]
    rfl
  exact reached_at (reached_at h htake fun _ _ => working_expected rfl) hparse fun _ _ => working_expected rfl

/-- The owner scores the event on the rows that are committed, and calls `record_decision`. -/
theorem reached_score {event : TransactionCreatedV1} (hp : parseTransactionEvent eventReader 1000 m.value = .ok event) {c : ℕ}
    {rows : List TransactionRecord} {score : Score} (hrows : decisions.transactions.rows.map (·.record) = rows)
    (hscore : scoreTransaction rows VelocityExample.ruleSet.definition (.ofEvent event) = .ok score)
    (habsent : decisions.phase c = .absent)
    (h : Reached (stateAt i decisions scorings (working position (.enter false) (.scoring event)))) :
    Reached (stateAt i
      (decisions.setPhase c (.called ⟨transactionDecision event VelocityExample.ruleSet score, m.provenance⟩))
      (Function.update scorings c (some ⟨event, VelocityExample.ruleSet, rows, score⟩))
      (working position (.enter false) (.recording c))) := by
  have hbegin : recordStep log.data decisions (.begin c ⟨transactionDecision event VelocityExample.ruleSet score, m.provenance⟩) =
      some (decisions.setPhase c (.called ⟨transactionDecision event VelocityExample.ruleSet score, m.provenance⟩)) := by
    simp only [recordStep, habsent]
    rw [if_pos (log.data_decision (List.mem_of_getElem? hm) hp VelocityExample.ruleSet score)]
  have hs : processingStep HandlingExample.settings VelocityExample.ruleSet log
      (stateAt i decisions scorings (working position (.enter false) (.scoring event))) (.owner i (.score c)) =
        some (stateAt i
          (decisions.setPhase c (.called ⟨transactionDecision event VelocityExample.ruleSet score, m.provenance⟩))
          (Function.update scorings c (some ⟨event, VelocityExample.ruleSet, rows, score⟩))
          (working position (.enter false) (.recording c))) := by
    have hhandling : (working position (.enter false) (.scoring event)).handling = some (.enter false, .scoring event) := rfl
    have hread : (stateAt i decisions scorings (working position (.enter false) (.scoring event))).rows = rows := hrows
    have hstep : recordStep log.data (stateAt i decisions scorings (working position (.enter false) (.scoring event))).decisions
        (.begin c ⟨Scoring.decision ⟨event, VelocityExample.ruleSet, rows, score⟩, m.provenance⟩) = _ := hbegin
    simp only [processingStep, at_owner, ownerStep, message_working hm, hhandling, hread, hscore, at_setOwner, hstep]
    rfl
  exact reached_at h hs fun _ _ => working_expected rfl

/-- A message that is processed. -/
def finished (m : Message) : Handling :=
  { (Handling.enter false).record (.process m.value m.provenance (.ok ())) with phase := .returned true }

/-- `record_decision` has returned, and the owner goes on to the next message. -/
theorem reached_next {c : ℕ} {call : RecordCall} {result : RecordResult} (hreturned : decisions.phase c = .returned call result)
    (h : Reached (stateAt i decisions scorings (working position (.enter false) (.recording c)))) :
    Reached (stateAt i decisions scorings (owner (position + 1))) := by
  have hfinish : processingStep HandlingExample.settings VelocityExample.ruleSet log
      (stateAt i decisions scorings (working position (.enter false) (.recording c)))
      (.owner i (.finish (.error .invalidEventError) none 0)) =
        some (stateAt i decisions scorings (working position (finished m) .parsing)) := by
    have hhandling : (working position (.enter false) (.recording c)).handling = some (.enter false, .recording c) := rfl
    have hphase : (stateAt i decisions scorings (working position (.enter false) (.recording c))).decisions.phase c =
        .returned call result := hreturned
    simp only [processingStep, at_owner, ownerStep, message_working hm, hhandling, hphase]
    exact congrArg some at_setOwner
  have hhandled : processingStep HandlingExample.settings VelocityExample.ruleSet log
      (stateAt i decisions scorings (working position (finished m) .parsing)) (.owner i .handled) =
        some (stateAt i decisions scorings (owner (position + 1))) := by
    have hhandling : (working position (finished m) .parsing).handling = some (finished m, .parsing) := rfl
    have hphase : (finished m).phase = .returned true := rfl
    simp only [processingStep, at_owner, ownerStep, hhandling, hphase, at_setOwner]
    rfl
  exact reached_at (reached_at h hfinish fun _ _ => working_expected rfl) hhandled fun _ _ => idle_expected

end

/-! ## The run -/

/-- What the velocity query of the first event gives, and its score; and the same of the later one, which counts the first. -/
def score : Score := VelocityExample.score
def laterScore : Score := ⟨⟨[], 0, .approved⟩, 1, ⟨12000, -2⟩⟩

/-- The calls of `record_decision`. -/
def call : RecordCall := ⟨transactionDecision event VelocityExample.ruleSet score, message.provenance⟩
def laterCall : RecordCall := ⟨transactionDecision laterEvent VelocityExample.ruleSet laterScore, laterMessage.provenance⟩

/-- The row of the first event. -/
def row : TransactionRecord := transactionRecord call.decision 5

theorem event_first : scoreTransaction [] VelocityExample.ruleSet.definition (.ofEvent event) = .ok score := rfl

theorem event_again : scoreTransaction [row] VelocityExample.ruleSet.definition (.ofEvent event) = .ok score := rfl

theorem later_score : scoreTransaction [row] VelocityExample.ruleSet.definition (.ofEvent laterEvent) = .ok laterScore := rfl

/-- A first call commits and does not hear of it; a second finds its row; a third is for the later event. -/
theorem recorded : ∃ lost repeated stored,
    (decisions log.data).run (DecisionsState.empty.setPhase 0 (.called call))
      [.insertDecision 0 5, .insertHistory 0, .commit 0 false] = some lost ∧
    lost.transactions.rows.map (·.record) = [row] ∧ lost.phase 0 = .raised call .outage ∧ lost.phase 1 = .absent ∧
    (decisions log.data).run (lost.setPhase 1 (.called call))
      [.insertDecision 1 6, .selectExisting 1, .insertHistory 1, .commit 1 true] = some repeated ∧
    repeated.transactions.rows.map (·.record) = [row] ∧ repeated.phase 2 = .absent ∧
    (∃ result, repeated.phase 1 = .returned call result ∧ result.outcome = .duplicate) ∧
    (decisions log.data).run (repeated.setPhase 2 (.called laterCall))
      [.insertDecision 2 7, .insertHistory 2, .commit 2 true] = some stored ∧
    (∃ result, stored.phase 2 = .returned laterCall result) ∧
    stored.transactions.rows = [⟨row, 0, message.provenance⟩,
      ⟨transactionRecord laterCall.decision 7, 2, laterMessage.provenance⟩] :=
  ⟨_, _, _, rfl, rfl, rfl, rfl, rfl, rfl, rfl, ⟨_, rfl, rfl⟩, rfl, ⟨_, rfl⟩, rfl⟩

/-- The scorings of the three calls. -/
def scorings : ℕ → Option Scoring :=
  Function.update
    (Function.update (Function.update (fun _ => none) 0 (some ⟨event, VelocityExample.ruleSet, [], score⟩)) 1
      (some ⟨event, VelocityExample.ruleSet, [row], score⟩)) 2 (some ⟨laterEvent, VelocityExample.ruleSet, [row], laterScore⟩)

theorem message_first : (log.messages message.topicPartition)[0]? = some message := by
  rw [messages_key]
  rfl

theorem message_second : (log.messages message.topicPartition)[1]? = some laterMessage := by
  rw [messages_key]
  rfl

/-- An owner commits the first decision, does not hear of it, and is killed. Another one takes over, comes to the message again, and
goes on to the later one. -/
theorem processed : ∃ stored, Reached (stateAt 1 stored scorings (owner 2)) ∧
    stored.transactions.rows = [⟨row, 0, message.provenance⟩,
      ⟨transactionRecord laterCall.decision 7, 2, laterMessage.provenance⟩] := by
  obtain ⟨lost, repeated, stored, hlost, hlostRows, -, hlostAbsent, hrepeated, hrepeatedRows, hrepeatedAbsent, ⟨_, hreturned, -⟩,
    hstored, ⟨_, hlater⟩, hrows⟩ := recorded
  refine ⟨stored, ?_, hrows⟩
  have hstart : Reached (vacant .empty fun _ => none) := .start rfl
  have hempty : DecisionsState.empty.transactions.rows.map (·.record) = [] := rfl
  have hparsed := reached_parse message_first parse_message (reached_own hstart 0)
  have hscored := reached_score message_first parse_message (c := 0) hempty event_first rfl hparsed
  have hcommitted := reached_record rfl _ (by decide) hscored hlost
  have hreparsed := reached_parse message_first parse_message (reached_own (reached_crash hcommitted) 1)
  have hrescored := reached_score message_first parse_message hlostRows event_again hlostAbsent hreparsed
  have hrecommitted := reached_record rfl _ (by decide) hrescored hrepeated
  have hnext := reached_next message_first hreturned hrecommitted
  have hparsedLater := reached_parse message_second parse_later hnext
  have hscoredLater := reached_score message_second parse_later hrepeatedRows later_score hrepeatedAbsent hparsedLater
  exact reached_next message_second hlater (reached_record rfl _ (by decide) hscoredLater hstored)

end ProcessingExample

open ProcessingExample in
/-- Two owners, one after the other: the first is killed after a commit whose acknowledgement is lost, and the second comes to the message
again. The later event is scored with the first one in its window, counted once. -/
theorem rows_sequential_takenOver :
    ∃ s, (processing HandlingExample.settings VelocityExample.ruleSet log).ReachableWhen
        (ExpectedStep HandlingExample.settings VelocityExample.ruleSet log) s ∧
      (s.rowsOf message.topicPartition).map (fun t => (t.key, t.call)) = [(⟨0⟩, 0), (⟨1⟩, 2)] ∧
      s.scorings 2 = some ⟨laterEvent, VelocityExample.ruleSet, [row], laterScore⟩ ∧
      (∃ n, (s.rowsOf message.topicPartition).map (·.record.toTransactionDecision) =
        (processAll eventReader 1000 VelocityExample.ruleSet ((log.messages message.topicPartition).take n)).map
          (·.toTransactionDecision)) ∧
      ∀ t ∈ s.rowsOf message.topicPartition, ∃ scoring j, s.scorings t.call = some scoring ∧
        ScoredInOrder log VelocityExample.ruleSet scoring message.topicPartition j t := by
  obtain ⟨stored, hreached, hrows⟩ := processed
  have hsequential := rows_sequential hreached message.topicPartition
  refine ⟨_, hreached, ?_, by simp [stateAt, scorings], hsequential⟩
  unfold ProcessingState.rowsOf
  rw [show (stateAt 1 stored scorings (owner 2)).decisions = stored from rfl, hrows]
  rfl

end FraudDetection
