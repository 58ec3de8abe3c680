import FraudDetection.Observability

/-!
# Redaction hides sensitive values and nothing else

Two event dicts that differ only under sensitive keys are logged alike: what is stored there has no influence on the record. A place
that no sensitive key leads to holds in the record what it held before, except that a tuple has become a list.
-/

namespace FraudDetection

variable {κ α : Type}

/-! ## No influence -/

mutual

/-- The two values differ only in what is stored under sensitive keys, at any depth. -/
inductive LogValue.Alike (sensitive : κ → Bool) : LogValue κ α → LogValue κ α → Prop
  | str (s : PyStr) : Alike sensitive (.str s) (.str s)
  | other (a : α) : Alike sensitive (.other a) (.other a)
  | dict {entries entries' : List (κ × LogValue κ α)} :
      AlikeEntries sensitive entries entries' → Alike sensitive (.dict entries) (.dict entries')
  | list {items items' : List (LogValue κ α)} : AlikeItems sensitive items items' → Alike sensitive (.list items) (.list items')
  | tuple {items items' : List (LogValue κ α)} :
      AlikeItems sensitive items items' → Alike sensitive (.tuple items) (.tuple items')

/-- Item by item. -/
inductive LogValue.AlikeItems (sensitive : κ → Bool) : List (LogValue κ α) → List (LogValue κ α) → Prop
  | nil : AlikeItems sensitive [] []
  | cons {v v' : LogValue κ α} {items items' : List (LogValue κ α)} :
      Alike sensitive v v' → AlikeItems sensitive items items' → AlikeItems sensitive (v :: items) (v' :: items')

/-- Entry by entry: under a sensitive key stands any value. -/
inductive LogValue.AlikeEntries (sensitive : κ → Bool) : List (κ × LogValue κ α) → List (κ × LogValue κ α) → Prop
  | nil : AlikeEntries sensitive [] []
  | masked {k : κ} {v v' : LogValue κ α} {entries entries' : List (κ × LogValue κ α)} :
      sensitive k = true → AlikeEntries sensitive entries entries' → AlikeEntries sensitive ((k, v) :: entries) ((k, v') :: entries')
  | kept {k : κ} {v v' : LogValue κ α} {entries entries' : List (κ × LogValue κ α)} :
      Alike sensitive v v' → AlikeEntries sensitive entries entries' → AlikeEntries sensitive ((k, v) :: entries) ((k, v') :: entries')

end

/-! ## Places -/

/-- A step into a container. -/
inductive LogStep (κ : Type) where
  | key (k : κ)
  | index (i : ℕ)
  deriving DecidableEq, Repr

/-- The step goes to the value of a sensitive key. -/
def LogStep.IsSensitive (sensitive : κ → Bool) : LogStep κ → Prop
  | .key k => sensitive k = true
  | .index _ => False

/-- What a place holds, when what it contains is left out. -/
inductive LogNode (κ α : Type) where
  | str (s : PyStr)
  | other (a : α)
  | dict (keys : List κ)
  | list (length : ℕ)
  | tuple (length : ℕ)
  deriving DecidableEq, Repr

/-- A tuple becomes a list. -/
def LogNode.asList : LogNode κ α → LogNode κ α
  | .tuple length => .list length
  | node => node

namespace LogValue

/-- The value one step away. -/
def child? [DecidableEq κ] : LogValue κ α → LogStep κ → Option (LogValue κ α)
  | .dict entries, .key k => (entries.find? fun entry => entry.1 = k).map (·.2)
  | .list items, .index i => items[i]?
  | .tuple items, .index i => items[i]?
  | _, _ => none

/-- The value at a place. -/
def at? [DecidableEq κ] : LogValue κ α → List (LogStep κ) → Option (LogValue κ α)
  | v, [] => some v
  | v, step :: path => (v.child? step).bind (·.at? path)

/-- What the value itself is. -/
def node : LogValue κ α → LogNode κ α
  | .str s => .str s
  | .other a => .other a
  | .dict entries => .dict (entries.map (·.1))
  | .list items => .list items.length
  | .tuple items => .tuple items.length

/-! ## What `redact` does to a value -/

variable {sensitive : κ → Bool}

theorem redactItems_eq_map (items : List (LogValue κ α)) : redactItems sensitive items = items.map (redact sensitive) := by
  induction items with
  | nil => rw [redactItems, List.map_nil]
  | cons item items ih => rw [redactItems, List.map_cons, ih]

theorem redactEntries_keys (entries : List (κ × LogValue κ α)) :
    (redactEntries sensitive entries).map (·.1) = entries.map (·.1) := by
  induction entries with
  | nil => rw [redactEntries]
  | cons entry entries ih => rw [redactEntries, List.map_cons, List.map_cons, ih]

/-- What is under a key: the mask if the key is sensitive, the redacted value if it is not. -/
theorem child?_redact_key [DecidableEq κ] (entries : List (κ × LogValue κ α)) (k : κ) :
    ((dict entries).redact sensitive).child? (.key k) =
      ((dict entries).child? (.key k)).map fun v => if sensitive k then redacted else v.redact sensitive := by
  rw [redact, child?, child?]
  induction entries with
  | nil => rw [redactEntries, List.find?_nil, Option.map_none, Option.map_none]
  | cons entry entries ih =>
    rw [redactEntries, List.find?_cons, List.find?_cons]
    by_cases hk : entry.1 = k
    · simp only [hk, decide_true, Option.map_some]
    · simp only [hk, decide_false]
      exact ih

theorem child?_redact_index [DecidableEq κ] (v : LogValue κ α) (i : ℕ) :
    (v.redact sensitive).child? (.index i) = (v.child? (.index i)).map (redact sensitive) := by
  cases v with
  | str s => rfl
  | other a => rfl
  | dict entries => rfl
  | list items => rw [redact, child?, child?, redactItems_eq_map, List.getElem?_map]
  | tuple items => rw [redact, child?, child?, redactItems_eq_map, List.getElem?_map]

/-- One step that is not to a sensitive key finds the redacted value where the value was. -/
theorem child?_redact [DecidableEq κ] (v : LogValue κ α) {step : LogStep κ} (hstep : ¬step.IsSensitive sensitive) :
    (v.redact sensitive).child? step = (v.child? step).map (redact sensitive) := by
  cases step with
  | index i => exact child?_redact_index v i
  | key k =>
    cases v with
    | str s => rfl
    | other a => rfl
    | list items => rfl
    | tuple items => rfl
    | dict entries =>
      have hk : sensitive k = false := Bool.eq_false_iff.mpr hstep
      rw [child?_redact_key]
      simp only [hk, Bool.false_eq_true, if_false]

/-- The same along a path: the redacted value stands in place. -/
theorem at?_redact [DecidableEq κ] {path : List (LogStep κ)} (hpath : ∀ step ∈ path, ¬step.IsSensitive sensitive) :
    ∀ v : LogValue κ α, (v.redact sensitive).at? path = (v.at? path).map (redact sensitive) := by
  induction path with
  | nil =>
    intro v
    rfl
  | cons step path ih =>
    intro v
    have hlater := ih fun later h => hpath later (List.mem_cons_of_mem step h)
    rw [at?, at?, child?_redact v (hpath step List.mem_cons_self)]
    cases v.child? step with
    | none => rfl
    | some w => exact hlater w

theorem at?_append [DecidableEq κ] (path : List (LogStep κ)) (step : LogStep κ) :
    ∀ v : LogValue κ α, v.at? (path ++ [step]) = (v.at? path).bind (·.child? step) := by
  induction path with
  | nil =>
    intro v
    rw [List.nil_append, at?, at?, Option.bind_some]
    cases v.child? step with
    | none => rfl
    | some w => rfl
  | cons first path ih =>
    intro v
    rw [List.cons_append, at?, at?, Option.bind_assoc]
    exact congrArg _ (funext fun w => ih w)

theorem node_redact (v : LogValue κ α) : (v.redact sensitive).node = v.node.asList := by
  cases v with
  | str s => rfl
  | other a => rfl
  | dict entries =>
    rw [redact, node, node, redactEntries_keys]
    rfl
  | list items =>
    rw [redact, node, node, redactItems_eq_map, List.length_map]
    rfl
  | tuple items => rw [redact, node, node, redactItems_eq_map, List.length_map, LogNode.asList]

mutual

/-- Values that are alike are redacted to the same value. -/
theorem Alike.redact_eq {v v' : LogValue κ α} : Alike sensitive v v' → v.redact sensitive = v'.redact sensitive
  | .str _ => rfl
  | .other _ => rfl
  | .dict h => by rw [redact, redact, AlikeEntries.redact_eq h]
  | .list h => by rw [redact, redact, AlikeItems.redact_eq h]
  | .tuple h => by rw [redact, redact, AlikeItems.redact_eq h]

theorem AlikeItems.redact_eq {items items' : List (LogValue κ α)} :
    AlikeItems sensitive items items' → redactItems sensitive items = redactItems sensitive items'
  | .nil => rfl
  | .cons hv h => by rw [redactItems, redactItems, Alike.redact_eq hv, AlikeItems.redact_eq h]

theorem AlikeEntries.redact_eq {entries entries' : List (κ × LogValue κ α)} :
    AlikeEntries sensitive entries entries' → redactEntries sensitive entries = redactEntries sensitive entries'
  | .nil => rfl
  | .masked hk h => by rw [redactEntries, redactEntries, if_pos hk, if_pos hk, AlikeEntries.redact_eq h]
  | .kept hv h => by rw [redactEntries, redactEntries, Alike.redact_eq hv, AlikeEntries.redact_eq h]

end

mutual

/-- What is redacted already stays as it is. -/
theorem redact_redact : ∀ v : LogValue κ α, (v.redact sensitive).redact sensitive = v.redact sensitive
  | .str _ => rfl
  | .other _ => rfl
  | .dict entries => by rw [redact, redact, redactEntries_redactEntries entries]
  | .list items => by rw [redact, redact, redactItems_redactItems items]
  | .tuple items => by rw [redact, redact, redactItems_redactItems items]

theorem redactItems_redactItems : ∀ items : List (LogValue κ α),
    redactItems sensitive (redactItems sensitive items) = redactItems sensitive items
  | [] => rfl
  | item :: items => by rw [redactItems, redactItems, redact_redact item, redactItems_redactItems items]

theorem redactEntries_redactEntries : ∀ entries : List (κ × LogValue κ α),
    redactEntries sensitive (redactEntries sensitive entries) = redactEntries sensitive entries
  | [] => rfl
  | (k, v) :: entries => by
    rw [redactEntries, redactEntries, redactEntries_redactEntries entries]
    by_cases hk : sensitive k = true
    · rw [if_pos hk, if_pos hk]
    · rw [if_neg hk, if_neg hk, redact_redact v]

end

end LogValue

/-! ## The record -/

/-- A value under a sensitive key, below no other one, is masked in the record. -/
theorem redactionProcessor_masks [DecidableEq κ] (text : KeyText κ) (sensitiveKeys : List PyStr) (eventDict : LogValue κ α)
    {path : List (LogStep κ)} (hpath : ∀ step ∈ path, ¬step.IsSensitive (text.isSensitive sensitiveKeys)) {k : κ}
    (hk : text.isSensitive sensitiveKeys k = true) {v : LogValue κ α} (hv : eventDict.at? (path ++ [.key k]) = some v) :
    (redactionProcessor text sensitiveKeys eventDict).at? (path ++ [.key k]) = some redacted := by
  rw [LogValue.at?_append] at hv
  obtain ⟨container, hcontainer, hchild⟩ := Option.bind_eq_some_iff.mp hv
  rw [redactionProcessor, LogValue.at?_append, LogValue.at?_redact hpath, hcontainer, Option.map_some, Option.bind_some]
  cases container with
  | str s => cases hchild
  | other a => cases hchild
  | list items => cases hchild
  | tuple items => cases hchild
  | dict entries => rw [LogValue.child?_redact_key, hchild, Option.map_some, if_pos hk]

/-- Event dicts that differ only under sensitive keys are redacted alike; every other place of an event dict holds afterwards what
it held before, with a list for a tuple; and a second redaction changes nothing. -/
theorem redaction_noninterfering [DecidableEq κ] (text : KeyText κ) (sensitiveKeys : List PyStr) :
    (∀ eventDict eventDict' : LogValue κ α, eventDict.Alike (text.isSensitive sensitiveKeys) eventDict' →
      redactionProcessor text sensitiveKeys eventDict = redactionProcessor text sensitiveKeys eventDict') ∧
    (∀ (eventDict : LogValue κ α) (path : List (LogStep κ)), (∀ step ∈ path, ¬step.IsSensitive (text.isSensitive sensitiveKeys)) →
      ((redactionProcessor text sensitiveKeys eventDict).at? path).map LogValue.node =
        (eventDict.at? path).map fun v => v.node.asList) ∧
    ∀ eventDict : LogValue κ α, redactionProcessor text sensitiveKeys (redactionProcessor text sensitiveKeys eventDict) =
      redactionProcessor text sensitiveKeys eventDict := by
  refine ⟨?_, ?_, ?_⟩
  · intro eventDict eventDict' h
    exact h.redact_eq
  · intro eventDict path hpath
    rw [redactionProcessor, LogValue.at?_redact hpath, Option.map_map]
    exact congrArg (Option.map · _) (funext fun v => LogValue.node_redact v)
  · intro eventDict
    exact LogValue.redact_redact eventDict

end FraudDetection
