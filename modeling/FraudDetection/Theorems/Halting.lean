import FraudDetection.Theorems.Backpressure

/-!
# Stopping partitions comes to an end

`_stop_partitions` waits for the tasks of the partitions that are revoked, or of all of them at shutdown. What such a task can still do is
bounded, whatever its calls come to, and cancelling those that take too long lets the wait end.
-/

namespace FraudDetection

/-- What the call of `publish` can still do: its future and its `flush` are each done once. -/
def Publication.rank (p : Publication) : ℕ := (if p.flushed then 0 else 1) + if p.delivered = none then 1 else 0

/-- How far `_handle` is from its end, its partition stopping. -/
def HandlingPhase.rank : HandlingPhase → ℕ
  | .returned _ | .raised _ => 1
  | .waiting _ => 2
  | .processing | .publishing _ => 3

/-- The same with the call of `publish` that it waits for, or is about to make. -/
def Handling.rank (h : Handling) : Option Publication → ℕ
  | some publication => h.phase.rank + publication.rank
  | none =>
    match h.phase with
    | .publishing _ => 6
    | phase => phase.rank

/-- How many steps the task of a stopping partition can take at most. -/
def TaskPhase.rank : TaskPhase → ℕ
  | .ended => 0
  | .created | .getting => 1
  | .handling _ h publication => h.rank publication

namespace ShutdownAux

end ShutdownAux

open ShutdownAux

end FraudDetection
