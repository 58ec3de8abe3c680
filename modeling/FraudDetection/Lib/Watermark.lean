import Mathlib.Order.Nat

/-!
# A queue with two watermarks

The producer of a queue is paused when the queue has grown to the high watermark. The consumer takes one thing at a time, and when it
has finished with it and the queue has shrunk to the low watermark, the producer is resumed. While the producer puts nothing when it
is paused, the queue does not outgrow the high watermark, and a paused queue is never empty unless its consumer is busy.
-/

namespace Watermark

/-- Where the consumer of a queue is: `gone` when it takes no more. -/
inductive Consumer where
  | idle | busy | gone
  deriving DecidableEq, Repr

/-- A queue, by its length. -/
structure Level where
  length : ℕ
  paused : Bool
  consumer : Consumer
  deriving DecidableEq, Repr

namespace Level

/-- The producer puts something into the queue. -/
def put (high : ℕ) (l : Level) : Level :=
  { l with length := l.length + 1, paused := l.paused || decide (high ≤ l.length + 1) }

/-- The consumer takes something. -/
def take (l : Level) : Level := { l with length := l.length - 1, consumer := .busy }

/-- The consumer has finished with what it took. -/
def finish (low : ℕ) (l : Level) : Level := { l with paused := l.paused && decide (low < l.length), consumer := .idle }

/-- The consumer is gone. -/
def leave (l : Level) : Level := { l with consumer := .gone }

/-- What holds of a queue whose producer puts nothing while it is paused. -/
structure Ok (high low : ℕ) (l : Level) : Prop where
  unpaused : l.paused = false → l.length < high
  bounded : l.length ≤ high
  idle : l.paused = true → l.consumer = .idle → low < l.length
  busy : l.paused = true → l.consumer = .busy → low ≤ l.length
  gone : l.paused = true → l.consumer = .gone → 0 < l.length

variable {high low : ℕ} {l : Level}

theorem ok_empty (h : low < high) (consumer : Consumer) : Ok high low ⟨0, false, consumer⟩ :=
  ⟨fun _ => Nat.zero_lt_of_lt h, Nat.zero_le high, nofun, nofun, nofun⟩

theorem ok_put (hlow : low < high) (h : l.Ok high low) (hl : l.paused = false) : (l.put high).Ok high low := by
  have hlt := h.unpaused hl
  refine ⟨fun hp => ?_, hlt, fun hp _ => ?_, fun hp _ => ?_, fun _ _ => Nat.succ_pos _⟩
  · simp only [put, hl, Bool.false_or, decide_eq_false_iff_not, not_le] at hp
    exact hp
  · simp only [put, hl, Bool.false_or, decide_eq_true_eq] at hp
    exact hlow.trans_le hp
  · simp only [put, hl, Bool.false_or, decide_eq_true_eq] at hp
    exact hlow.le.trans hp

theorem ok_take (h : l.Ok high low) (hidle : l.consumer = .idle) : l.take.Ok high low := by
  refine ⟨fun hp => ?_, (Nat.pred_le _).trans h.bounded, nofun, fun hp _ => ?_, nofun⟩
  · exact (Nat.pred_le _).trans_lt (h.unpaused hp)
  · exact Nat.le_pred_of_lt (h.idle hp hidle)

theorem ok_finish (hlow : low < high) (h : l.Ok high low) : (l.finish low).Ok high low := by
  refine ⟨fun hp => ?_, h.bounded, fun hp _ => ?_, nofun, nofun⟩
  · rcases (Bool.and_eq_false_iff.mp hp) with hl | hle
    · exact h.unpaused hl
    · exact (not_lt.mp (of_decide_eq_false hle)).trans_lt hlow
  · exact of_decide_eq_true (Bool.and_eq_true_iff.mp hp).2

/-- The consumer of a queue that is not paused, or not empty, may leave. -/
theorem ok_leave (h : l.Ok high low) (hne : l.paused = true → 0 < l.length) : l.leave.Ok high low :=
  ⟨h.unpaused, h.bounded, nofun, nofun, fun hp _ => hne hp⟩

/-- A busy consumer leaves a queue that is not empty if the low watermark is not zero. -/
theorem Ok.pos_of_busy (h : l.Ok high low) (hbusy : l.consumer = .busy) (hlow : 0 < low) (hp : l.paused = true) : 0 < l.length :=
  hlow.trans_le (h.busy hp hbusy)

/-- A paused queue is not empty while nothing is taken from it. -/
theorem Ok.not_stalled (h : l.Ok high low) : ¬(l.paused = true ∧ l.length = 0 ∧ l.consumer ≠ .busy) := by
  rintro ⟨hp, hzero, hc⟩
  have hpos : 0 < l.length := by
    cases hconsumer : l.consumer with
    | idle => exact Nat.zero_lt_of_lt (h.idle hp hconsumer)
    | busy => exact absurd hconsumer hc
    | gone => exact h.gone hp hconsumer
  exact hpos.ne' hzero

end Level

end Watermark
