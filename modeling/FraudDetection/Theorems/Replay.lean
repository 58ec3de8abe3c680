import FraudDetection.Replay

/-!
# What a replay's committed offset passes

The committed offset of a partition moves past the message at hand, and so past every message before it. It passes a message that
was not acknowledged in two ways: the message at hand was rejected, which `flush` does not tell from acknowledged, or a message
without a source topic was skipped before it.
-/

namespace FraudDetection

/-- The committed offsets have passed acknowledged messages only. -/
def ReplayState.LosesNothing (s : ReplayState) : Prop :=
  ∀ partition offset, offset < s.committed partition → (partition, offset) ∈ s.acknowledged

/-- The message at hand was not rejected, and every message from the committed offset up to it names a source topic. -/
def ReplayState.Commits (s : ReplayState) (partition offset : ℕ) (delivery : Delivery) : Prop :=
  delivery ≠ .rejected ∧
    ∀ earlier message, s.committed partition ≤ earlier → earlier < offset → (s.log partition)[earlier]? = some message →
      message.sourceTopic ≠ none

/-- A commit that reaches the broker is of such a message. -/
def CommitsSoundly (s : ReplayState) : ReplayEvent → Prop
  | .commit outcome =>
    outcome.stored = true → ∀ replayed partition offset delivery,
      s.phase = .committing replayed partition offset delivery → s.Commits partition offset delivery
  | _ => True

/-- A message that the worker dead-letters names its source topic. -/
theorem sourceTopic_buildDlqHeaders {letter : DeadLetter} (h : letter.sourceTopic ≠ "") (errorType errorMessage failedAt : String)
    (key value : Option (List UInt8)) :
    (DlqMessage.mk key value (buildDlqHeaders letter errorType errorMessage failedAt)).sourceTopic = some letter.sourceTopic := by
  have hget : (buildDlqHeaders letter errorType errorMessage failedAt).get "dlq.source.topic" = some letter.sourceTopic := by
    unfold buildDlqHeaders Headers.get
    cases letter.correlationId.filter (· ≠ "") with
    | none => simp
    | some id => simp
  unfold DlqMessage.sourceTopic
  simp only [hget]
  simp [h]

namespace ReplayAux

/-- The message at hand. -/
def atHand : ReplayPhase → Option (ℕ × ℕ)
  | .polled _ partition offset | .produced _ partition offset _ | .committing _ partition offset _ => some (partition, offset)
  | _ => none

/-- What has become of it. -/
def delivery : ReplayPhase → Option Delivery
  | .produced _ _ _ delivery | .committing _ _ _ delivery => some delivery
  | _ => none

/-- What holds between the steps of a run. -/
structure Inv (s : ReplayState) : Prop where
  safe : s.LosesNothing
  /-- What the run has passed and not committed it has skipped, but for the message at hand. -/
  skipped : s.phase ≠ .ended → ∀ partition offset, s.committed partition ≤ offset → offset < s.position partition →
    atHand s.phase = some (partition, offset) ∨ ∃ message, (s.log partition)[offset]? = some message ∧ message.sourceTopic = none
  hand : ∀ partition offset, atHand s.phase = some (partition, offset) → s.position partition = offset + 1
  acknowledged : ∀ hand, atHand s.phase = some hand → delivery s.phase = some .acknowledged → hand ∈ s.acknowledged
  flushed : ∀ replayed partition offset, s.phase ≠ .committing replayed partition offset .queued

variable {s s' : ReplayState}

theorem inv_start (h : replay.start s) : Inv s := by
  obtain ⟨hcommitted, -, hphase⟩ := h
  refine ⟨?_, ?_, ?_, ?_, ?_⟩
  · intro partition offset hlt
    rw [hcommitted] at hlt
    exact absurd hlt (Nat.not_lt_zero _)
  · intro hrun
    exact absurd hphase hrun
  · intro partition offset hhand
    rw [hphase] at hhand
    cases hhand
  · intro hand hhand
    rw [hphase] at hhand
    cases hhand
  · intro replayed partition offset
    rw [hphase]
    exact ReplayPhase.noConfusion

/-- Ending a run keeps the offsets and forgets the message at hand. -/
theorem inv_ended (h : Inv s) : Inv { s with phase := .ended } where
  safe := h.safe
  skipped hrun := absurd rfl hrun
  hand _ _ hhand := by cases hhand
  acknowledged _ hhand := by cases hhand
  flushed _ _ _ := ReplayPhase.noConfusion

theorem inv_append (h : Inv s) (partition : ℕ) (message : DlqMessage) :
    Inv { s with log := Function.update s.log partition (s.log partition ++ [message]) } where
  safe := h.safe
  skipped hrun p offset hle hlt := by
    rcases h.skipped hrun p offset hle hlt with hhand | ⟨m, hm, hnone⟩
    · exact .inl hhand
    · refine .inr ⟨m, ?_, hnone⟩
      dsimp only
      by_cases hp : p = partition
      · subst hp
        rw [Function.update_self]
        exact (List.getElem?_append_left (List.getElem?_eq_some_iff.mp hm).1).trans hm
      · rw [Function.update_of_ne hp]
        exact hm
  hand := h.hand
  acknowledged := h.acknowledged
  flushed := h.flushed

/-- A run begins where the group's offsets are. -/
theorem inv_begin (h : Inv s) (max : ℤ) : Inv { s with max := max, position := s.committed, phase := .polling 0 } where
  safe := h.safe
  skipped _ _ _ hle hlt := absurd hle (Nat.not_le_of_lt hlt)
  hand _ _ hhand := by cases hhand
  acknowledged _ hhand := by cases hhand
  flushed _ _ _ := ReplayPhase.noConfusion

theorem inv_poll (h : Inv s) {replayed : ℕ} (hphase : s.phase = .polling replayed) (partition : ℕ) :
    Inv { s with
      position := Function.update s.position partition (s.position partition + 1)
      phase := .polled replayed partition (s.position partition) } where
  safe := h.safe
  skipped _ p offset hle hlt := by
    have hrun : s.phase ≠ .ended := by
      rw [hphase]
      exact ReplayPhase.noConfusion
    have hnone : atHand s.phase = none := by
      rw [hphase]
      rfl
    have hold : offset < s.position p → ∃ message, (s.log p)[offset]? = some message ∧ message.sourceTopic = none := by
      intro hlt
      rcases h.skipped hrun p offset hle hlt with hhand | hskip
      · rw [hnone] at hhand
        cases hhand
      · exact hskip
    dsimp only at hlt
    by_cases hp : p = partition
    · subst hp
      rw [Function.update_self] at hlt
      rcases Nat.lt_succ_iff_lt_or_eq.mp hlt with hlt | rfl
      · exact .inr (hold hlt)
      · exact .inl rfl
    · rw [Function.update_of_ne hp] at hlt
      exact .inr (hold hlt)
  hand p offset hhand := by
    cases hhand
    exact Function.update_self ..
  acknowledged _ _ hdelivery := by cases hdelivery
  flushed _ _ _ := ReplayPhase.noConfusion

/-- A message without a source topic is skipped. -/
theorem inv_skip (h : Inv s) {replayed partition offset : ℕ} (hphase : s.phase = .polled replayed partition offset)
    {message : DlqMessage} (hm : (s.log partition)[offset]? = some message) (hnone : message.sourceTopic = none) :
    Inv { s with phase := .polling replayed } where
  safe := h.safe
  skipped _ p o hle hlt := by
    have hrun : s.phase ≠ .ended := by
      rw [hphase]
      exact ReplayPhase.noConfusion
    rcases h.skipped hrun p o hle hlt with hhand | hskip
    · rw [hphase] at hhand
      cases hhand
      exact .inr ⟨message, hm, hnone⟩
    · exact .inr hskip
  hand _ _ hhand := by cases hhand
  acknowledged _ hhand := by cases hhand
  flushed _ _ _ := ReplayPhase.noConfusion

/-- A phase with the same message at hand, acknowledged only if the log of acknowledgements says so. -/
theorem inv_samehand (h : Inv s) {phase : ReplayPhase} (hrun : s.phase ≠ .ended) (hhand : atHand phase = atHand s.phase)
    {acknowledged : List (ℕ × ℕ)} (hmore : ∀ hand ∈ s.acknowledged, hand ∈ acknowledged)
    (hack : ∀ hand, atHand phase = some hand → delivery phase = some .acknowledged → hand ∈ acknowledged)
    (hflushed : ∀ replayed partition offset, phase ≠ .committing replayed partition offset .queued) :
    Inv { s with acknowledged := acknowledged, phase := phase } where
  safe p o hlt := hmore _ (h.safe p o hlt)
  skipped _ p o hle hlt := by
    simp only [hhand]
    exact h.skipped hrun p o hle hlt
  hand p o hh := by
    refine h.hand p o ?_
    rw [← hhand]
    exact hh
  acknowledged := hack
  flushed := hflushed

/-- The committed offset moves to the message at hand from the message before it. -/
theorem safe_commit (h : Inv s) {replayed partition offset : ℕ} {d : Delivery}
    (hphase : s.phase = .committing replayed partition offset d) (hsound : s.Commits partition offset d) :
    ∀ p o, o < Function.update s.committed partition (offset + 1) p → (p, o) ∈ s.acknowledged := by
  obtain ⟨hd, htopics⟩ := hsound
  have hrun : s.phase ≠ .ended := by
    rw [hphase]
    exact ReplayPhase.noConfusion
  have hhand : atHand s.phase = some (partition, offset) := by
    rw [hphase]
    rfl
  -- flushed and not rejected, so acknowledged
  have hack : (partition, offset) ∈ s.acknowledged := by
    refine h.acknowledged _ hhand ?_
    rw [hphase]
    cases d with
    | queued => exact absurd hphase (h.flushed replayed partition offset)
    | acknowledged => rfl
    | rejected => exact absurd rfl hd
  intro p o hlt
  by_cases hp : p = partition
  · subst hp
    rw [Function.update_self] at hlt
    rcases Nat.lt_succ_iff_lt_or_eq.mp hlt with hlt | rfl
    · -- an earlier message was committed before: it has a source topic, so it was not skipped
      refine h.safe p o (Nat.lt_of_not_le fun hle => ?_)
      have hpos : o < s.position p := by
        rw [h.hand p offset hhand]
        exact Nat.lt_succ_of_lt hlt
      rcases h.skipped hrun p o hle hpos with hsame | ⟨message, hm, hnone⟩
      · rw [hhand] at hsame
        cases hsame
        exact lt_irrefl _ hlt
      · exact htopics o message hle hlt hm hnone
    · exact hack
  · rw [Function.update_of_ne hp] at hlt
    exact h.safe p o hlt

/-- After a commit a run goes on with nothing at hand. -/
theorem inv_committed (h : Inv s) {replayed partition offset : ℕ} {d : Delivery}
    (hphase : s.phase = .committing replayed partition offset d) (hsound : s.Commits partition offset d) :
    Inv { s with
      committed := Function.update s.committed partition (offset + 1)
      phase := .polling (replayed + 1) } where
  safe := safe_commit h hphase hsound
  skipped _ p o hle hlt := by
    dsimp only at hle hlt
    have hrun : s.phase ≠ .ended := by
      rw [hphase]
      exact ReplayPhase.noConfusion
    have hhand : atHand s.phase = some (partition, offset) := by
      rw [hphase]
      rfl
    by_cases hp : p = partition
    · subst hp
      rw [Function.update_self] at hle
      rw [h.hand p offset hhand] at hlt
      exact absurd hle (Nat.not_le_of_lt hlt)
    · rw [Function.update_of_ne hp] at hle
      rcases h.skipped hrun p o hle hlt with hsame | hskip
      · rw [hhand] at hsame
        cases hsame
        exact absurd rfl hp
      · exact .inr hskip
  hand _ _ hhand := by cases hhand
  acknowledged _ hhand := by cases hhand
  flushed _ _ _ := ReplayPhase.noConfusion

theorem inv_step {e : ReplayEvent} (h : Inv s) (hg : CommitsSoundly s e) (hs : replay.step s e = some s') : Inv s' := by
  cases e with
  | append partition message =>
    simp only [replay, replayStep] at hs
    cases hs
    exact inv_append h partition message
  | start max =>
    simp only [replay, replayStep] at hs
    split at hs
    · cases hs
      exact inv_begin h max
    · cases hs
  | poll partition =>
    simp only [replay, replayStep] at hs
    split at hs
    · rename_i replayed hphase
      split at hs
      · cases partition with
        | none =>
          cases hs
          exact inv_ended h
        | some partition =>
          simp only at hs
          split at hs
          · cases hs
            exact inv_poll h hphase partition
          · cases hs
      · cases hs
        exact inv_ended h
    · cases hs
  | handle =>
    simp only [replay, replayStep] at hs
    split at hs
    · rename_i replayed partition offset hphase
      split at hs
      · cases hs
      · rename_i message hm
        split at hs
        · cases hs
          exact inv_ended h
        · split at hs
          · rename_i hnone
            cases hs
            exact inv_skip h hphase hm hnone
          · cases hs
            have hrun : s.phase ≠ .ended := by
              rw [hphase]
              exact ReplayPhase.noConfusion
            have hsame : atHand (.produced replayed partition offset .queued) = atHand s.phase := by
              rw [hphase]
              rfl
            refine inv_samehand h hrun hsame (fun _ hin => hin) (fun _ _ hd => ?_) fun _ _ _ => ReplayPhase.noConfusion
            cases hd
    · cases hs
  | deliver acknowledged =>
    simp only [replay, replayStep] at hs
    split at hs
    · rename_i replayed partition offset hphase
      have hrun : s.phase ≠ .ended := by
        rw [hphase]
        exact ReplayPhase.noConfusion
      split at hs
      · cases hs
        have hsame : atHand (.produced replayed partition offset .acknowledged) = atHand s.phase := by
          rw [hphase]
          rfl
        refine inv_samehand h hrun hsame (fun _ hin => List.mem_cons_of_mem _ hin) (fun hand hhand _ => ?_)
          fun _ _ _ => ReplayPhase.noConfusion
        cases hhand
        exact List.mem_cons_self
      · cases hs
        have hsame : atHand (.produced replayed partition offset .rejected) = atHand s.phase := by
          rw [hphase]
          rfl
        refine inv_samehand h hrun hsame (fun _ hin => hin) (fun _ _ hd => ?_) fun _ _ _ => ReplayPhase.noConfusion
        cases hd
    · cases hs
  | flush =>
    simp only [replay, replayStep] at hs
    split at hs
    · cases hs
      exact inv_ended h
    · rename_i replayed partition offset d hqueued hphase
      cases hs
      have hrun : s.phase ≠ .ended := by
        rw [hphase]
        exact ReplayPhase.noConfusion
      have hsame : atHand (.committing replayed partition offset d) = atHand s.phase := by
        rw [hphase]
        rfl
      refine inv_samehand h hrun hsame (fun _ hin => hin) (fun hand hhand hd => ?_) fun r p o heq => ?_
      · refine h.acknowledged hand (hsame ▸ hhand) ?_
        rw [hphase]
        exact hd
      · cases heq
        exact hqueued rfl
    · cases hs
  | commit outcome =>
    simp only [replay, replayStep] at hs
    split at hs
    · rename_i replayed partition offset d hphase
      cases hs
      cases outcome with
      | returned => exact inv_committed h hphase (hg rfl replayed partition offset d hphase)
      | raised stored =>
        cases stored with
        | false => exact inv_ended h
        | true => exact inv_ended (inv_committed h hphase (hg rfl replayed partition offset d hphase))
    · cases hs
  | stop =>
    simp only [replay, replayStep] at hs
    split at hs
    · cases hs
    · cases hs
      exact inv_ended h

end ReplayAux

/-- In every run whose commits are all of messages that were not rejected, with no message without a source topic between the
committed offset and them, the committed offsets have passed acknowledged messages only. -/
theorem replay_losesNothing (s : ReplayState) (h : replay.ReachableWhen CommitsSoundly s) : s.LosesNothing :=
  (h.invariant (fun _ hstart => ReplayAux.inv_start hstart) fun _ _ _ hi hg hs => ReplayAux.inv_step hi hg hs).safe

namespace ReplayExample

/-- A dead letter of the worker. -/
def letter : DlqMessage where
  key := none
  value := some [0x7B]
  headers := [("dlq.source.topic", some "transactions"), ("dlq.source.partition", some "0")]

/-- A new group, and an empty topic. -/
def start : ReplayState := ⟨fun _ => [], fun _ => 0, [], fun _ => 0, 0, .ended⟩

theorem start_reachable {guard : ReplayState → ReplayEvent → Prop} : replay.ReachableWhen guard start :=
  .start ⟨fun _ => rfl, rfl, rfl⟩

/-- A run that replays one dead letter, which its source topic rejects, up to its commit. -/
def events : List ReplayEvent := [.append 0 letter, .start 10, .poll (some 0), .handle, .deliver false, .flush]

/-- The state before the commit: `flush` has returned 0. -/
def flushed : ReplayState where
  log := Function.update (fun _ => []) 0 [letter]
  committed _ := 0
  acknowledged := []
  position := Function.update (fun _ => 0) 0 1
  max := 10
  phase := .committing 0 0 0 .rejected

/-- The state after it. -/
def finish : ReplayState := { flushed with committed := Function.update (fun _ => 0) 0 1, phase := .polling 1 }

theorem run_events : replay.run start events = some flushed := rfl

theorem step_commit : replay.step flushed (.commit .returned) = some finish := rfl

/-- Another dead letter of the worker. -/
def another : DlqMessage := { letter with value := some [0x7D] }

/-- The broker has not answered for the first dead letter when `flush` gives up. In the next run it acknowledges both of a partition, the
second after the offset of the first is committed. -/
theorem replayed_two : ∃ first middle second final,
    replay.run start [.append 0 letter, .append 0 another, .start 10, .poll (some 0), .handle, .flush, .start 10, .poll (some 0),
      .handle, .deliver true, .flush] = some first ∧
    first.phase = .committing 0 0 0 .acknowledged ∧ replay.step first (.commit .returned) = some middle ∧
    replay.run middle [.poll (some 0), .handle, .deliver true, .flush] = some second ∧
    second.phase = .committing 1 0 1 .acknowledged ∧ second.committed 0 = 1 ∧
    replay.step second (.commit .returned) = some final ∧ final.committed 0 = 2 ∧ final.acknowledged = [(0, 1), (0, 0)] :=
  ⟨_, _, _, _, rfl, rfl, rfl, rfl, rfl, rfl, rfl, rfl, rfl⟩

/-- A run without a commit meets the condition. -/
theorem meets_commitsSoundly {events : List ReplayEvent} (h : ∀ outcome, .commit outcome ∉ events) (s : ReplayState) :
    replay.Meets CommitsSoundly s events := by
  refine StepSystem.meets_of_forall (fun e he s => ?_) s
  cases e with
  | commit outcome => exact absurd he (h outcome)
  | _ => trivial

/-- So does the commit of an acknowledged message that is the first one after the committed offset. -/
theorem commitsSoundly_next {s : ReplayState} {replayed partition offset : ℕ}
    (hphase : s.phase = .committing replayed partition offset .acknowledged) (hcommitted : s.committed partition = offset)
    (outcome : CommitOutcome) : CommitsSoundly s (.commit outcome) := by
  intro _ replayed' partition' offset' delivery' hphase'
  rw [hphase] at hphase'
  cases hphase'
  refine ⟨Delivery.noConfusion, fun earlier message hle hlt => ?_⟩
  rw [hcommitted] at hle
  exact absurd hlt (Nat.not_lt.mpr hle)

end ReplayExample

open ReplayExample in
/-- Two dead letters of one partition are replayed, the first of them in a second run, and the committed offset has passed both. -/
theorem replay_losesNothing_two : ∃ s, replay.ReachableWhen CommitsSoundly s ∧ s.committed 0 = 2 ∧ s.LosesNothing := by
  obtain ⟨first, middle, second, final, hfirst, hphase, hmiddle, hsecond, hphase', hcommitted, hfinal, hpassed, -⟩ := replayed_two
  have hzero : first.committed 0 = 0 := by
    cases hfirst
    rfl
  have hflushed := start_reachable.run (meets_commitsSoundly (by simp) start) hfirst
  have hcommit := hflushed.step (commitsSoundly_next hphase hzero _) hmiddle
  have hflushed' := hcommit.run (meets_commitsSoundly (by simp) middle) hsecond
  have hcommit' := hflushed'.step (commitsSoundly_next hphase' hcommitted _) hfinal
  exact ⟨final, hcommit', hpassed, replay_losesNothing final hcommit'⟩

/-- A dead letter whose replay was rejected is passed by the committed offset. -/
theorem replay_losesNothing_false : ¬∀ s, replay.Reachable s → s.LosesNothing := by
  intro h
  have hs := h _ (.step (StepSystem.Reachable.run ReplayExample.start_reachable ReplayExample.run_events) trivial
    ReplayExample.step_commit)
  exact absurd (hs 0 0 (by decide)) List.not_mem_nil

end FraudDetection
