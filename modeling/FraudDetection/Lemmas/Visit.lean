import FraudDetection.Typing

/-!
# What `visit` went through

A node that `visit` gives a type is a list, an operation or a literal, each checked in its own way; and the type does not depend
on where the node is.
-/

namespace FraudDetection

namespace SoundnessAux

/-! ## The nodes `visit` accepts -/

/-- The operators other than `var`. -/
def operationOperators : List String :=
  ["==", "!=", ">", ">=", "<", "<=", "!", "in", "+", "-", "*", "min", "max", "and", "or", "if"]

/-- A supported operator is `var` or one of `operationOperators`, and takes at least one argument; `!` takes one and `var` at
most two. -/
theorem arity_cases {operator : String} {minimum : ℕ} {maximum : Option ℕ} (h : arity operator = some (minimum, maximum)) :
    (operator = "var" ∨ operator ∈ operationOperators) ∧ 1 ≤ minimum ∧ (operator = "!" → maximum = some 1) ∧
      (operator = "var" → maximum = some 2) := by
  unfold arity at h
  split at h
  · rename_i o bounds hf
    have hm := List.mem_of_find?_eq_some hf
    have ho := List.find?_some hf
    simp only [lazyOperators, List.mem_cons, List.not_mem_nil, or_false, beq_iff_eq] at hm ho
    subst ho
    cases h
    rcases hm with h | h | h | h <;> cases h <;> decide
  · obtain ⟨⟨o, lo, hi, f⟩, hf, hb⟩ := Option.map_eq_some_iff.mp h
    have hm := List.mem_of_find?_eq_some hf
    have ho := List.find?_some hf
    simp only [operators, List.mem_cons, List.not_mem_nil, or_false, beq_iff_eq, Prod.mk.injEq] at hm ho hb
    subst ho
    obtain ⟨rfl, rfl⟩ := hb
    rcases hm with h | h | h | h | h | h | h | h | h | h | h | h | h <;> obtain ⟨rfl, rfl, rfl, -⟩ := h <;> decide

/-- A literal whose number, if it is one, is finite. -/
def IsLiteral : Json → Prop
  | .arr _ | .obj _ => False
  | .float f => f.isFinite = true
  | _ => True

/-- What `visit` went through when it gave a node a type: a list, an operation or a literal. -/
theorem visit_cases {path : String} {levels : ℕ} {node : Json} {location : String} {count count' : ℕ} {type : NodeType}
    (h : visit path levels node location count = .ok (type, count')) :
    ∃ levels', levels = levels' + 1 ∧
      ((∃ items types loc, node = .arr items ∧ visitEach (visit path levels') loc 0 items (count + 1) = .ok (types, count') ∧
          types.dedup.length ≤ 1 ∧ type = .listOf types.dedup.head?) ∨
        (∃ operator raw minimum maximum, node = .obj [(operator, raw)] ∧ arity operator = some (minimum, maximum) ∧
          minimum ≤ (operatorArgs raw).length ∧ (∀ m ∈ maximum, (operatorArgs raw).length ≤ m) ∧
          (operator = "var" ∧ checkVariable (visit path levels') location (operatorArgs raw) (count + 1) = .ok (type, count') ∨
            operator ≠ "var" ∧ ∃ types loc,
              visitEach (visit path levels') loc 0 (operatorArgs raw) (count + 1) = .ok (types, count') ∧
              operationType location operator types = .ok type)) ∨
        (IsLiteral node ∧ type = literalType node)) := by
  unfold visit at h
  simp only at h
  split at h
  · cases h
  split at h
  · cases h
  rename_i levels'
  refine ⟨levels', rfl, ?_⟩
  split at h
  · obtain ⟨p, hv, h⟩ := Except.bind_eq_ok.mp h
    split at h
    · cases h
    · rename_i hl
      cases h
      exact Or.inl ⟨_, p.1, _, rfl, hv, Nat.le_of_not_lt hl, rfl⟩
  · right; left
    split at h
    · cases h
    rename_i har
    split at h
    · cases h
    rename_i hlen
    rw [not_or, not_exists] at hlen
    refine ⟨_, _, _, _, rfl, har, Nat.le_of_not_lt hlen.1, fun m hm => ?_, ?_⟩
    · exact Nat.le_of_not_lt fun hlt => hlen.2 m ⟨hm, hlt⟩
    split at h
    · rename_i hvar
      exact Or.inl ⟨hvar, h⟩
    · rename_i hvar
      obtain ⟨p, hv, h⟩ := Except.bind_eq_ok.mp h
      obtain ⟨t, ht, h⟩ := Except.bind_eq_ok.mp h
      cases h
      exact Or.inr ⟨hvar, p.1, _, hv, ht⟩
  · cases h
  · split at h
    · rename_i hf
      cases h
      exact Or.inr (Or.inr ⟨hf, rfl⟩)
    · cases h
  · rename_i harr _ hobj _
    cases h
    refine Or.inr (Or.inr ⟨?_, rfl⟩)
    cases node <;> simp_all [IsLiteral]

/-- Checking some nodes gives each of them a type. -/
theorem visitEach_ok {check : Json → String → ℕ → Except InvalidCondition (NodeType × ℕ)} {loc : ℕ → String}
    {items : List Json} :
    ∀ {index count count' : ℕ} {types : List NodeType}, visitEach check loc index items count = .ok (types, count') →
      List.Forall₂ (fun item type => ∃ location count count', check item location count = .ok (type, count')) items types := by
  induction items with
  | nil =>
    intro index count count' types h
    simp only [visitEach, Except.ok.injEq, Prod.mk.injEq] at h
    rw [← h.1]
    exact .nil
  | cons item items ih =>
    intro index count count' types h
    obtain ⟨p, hc, h⟩ := Except.bind_eq_ok.mp h
    obtain ⟨q, hv, h⟩ := Except.bind_eq_ok.mp h
    cases h
    exact .cons ⟨_, _, _, hc⟩ (ih hv)

/-- A variable that was accepted is declared, and its default, when it has one, was given its type. -/
theorem checkVariable_ok {check : Json → String → ℕ → Except InvalidCondition (NodeType × ℕ)} {location : String}
    {args : List Json} {count count' : ℕ} {type : NodeType}
    (h : checkVariable check location args count = .ok (type, count')) :
    ∃ name declared rest, args = .str name :: rest ∧ variableNamed name = some declared ∧ type = .value declared.type ∧
      ((rest = [] ∧ declared.required = true) ∨
        ∃ default more, rest = default :: more ∧ ∃ loc count count', check default loc count = .ok (type, count')) := by
  unfold checkVariable at h
  split at h
  · split at h
    · cases h
    rename_i declared hd
    refine ⟨_, declared, _, rfl, hd, ?_⟩
    split at h
    · split at h
      · rename_i hreq
        cases h
        exact ⟨rfl, Or.inl ⟨rfl, hreq⟩⟩
      · cases h
    · obtain ⟨⟨defaultType, count'⟩, hc, h⟩ := Except.bind_eq_ok.mp h
      dsimp only at h
      by_cases ht : defaultType = .value declared.type
      · rw [if_neg (not_not.mpr ht)] at h
        cases h
        exact ⟨rfl, Or.inr ⟨_, _, rfl, _, _, _, ht ▸ hc⟩⟩
      · rw [if_pos ht] at h
        cases h
  · cases h
  · cases h

/-- The types given to the nodes of a list all agree when at most one is left after removing duplicates. -/
theorem dedup_const {types : List NodeType} (h : types.dedup.length ≤ 1) :
    (types = [] ∧ NodeType.listOf types.dedup.head? = .emptyList) ∨
      ∃ type, types ≠ [] ∧ NodeType.listOf types.dedup.head? = .list type ∧ ∀ t ∈ types, t = type := by
  match hd : types.dedup with
  | [] =>
    have : types = [] := (List.dedup_eq_nil types).mp hd
    exact Or.inl ⟨this, rfl⟩
  | [t] =>
    refine Or.inr ⟨t, ?_, rfl, fun t' ht' => ?_⟩
    · rintro rfl
      simp at hd
    · have := List.mem_dedup.mpr ht'
      rw [hd] at this
      exact List.mem_singleton.mp this
  | a :: b :: rest => rw [hd] at h; simp at h

/-- `require` accepts the same types wherever it is called. -/
theorem require_congr {location location' operator purpose : String} {expected : NodeType} {types : List NodeType} :
    ∀ {index : ℕ}, require location operator expected purpose index types = .ok () →
      require location' operator expected purpose index types = .ok () := by
  induction types with
  | nil => intro _ _; rfl
  | cons actual types ih =>
    intro index h
    simp only [require] at h ⊢
    split at h
    · cases h
    · rename_i heq
      rw [if_neg heq]
      exact ih h

/-- The type of an operation does not depend on where it is. -/
theorem operationType_congr {location location' operator : String} {types : List NodeType} {type : NodeType}
    (h : operationType location operator types = .ok type) : operationType location' operator types = .ok type := by
  unfold operationType at h ⊢
  split
  · rename_i hnum
    rw [if_pos hnum] at h
    obtain ⟨_, hr, h⟩ := Except.bind_eq_ok.mp h
    rw [require_congr hr]
    exact h
  rename_i hnum
  rw [if_neg hnum] at h
  split
  · rename_i hlog
    rw [if_pos hlog] at h
    obtain ⟨_, hr, h⟩ := Except.bind_eq_ok.mp h
    rw [require_congr hr]
    exact h
  rename_i hlog
  rw [if_neg hlog] at h
  split
  · rename_i hif
    rw [if_pos hif] at h
    split at h
    · split at h
      · cases h
      · rename_i hc
        rw [if_neg hc]
        split at h
        · cases h
        · rename_i hb
          rw [if_neg hb]
          exact h
    · cases h
  rename_i hif
  rw [if_neg hif] at h
  split at h
  · split
    · rename_i heq
      rw [if_pos heq] at h
      split at h
      · cases h
      · rename_i hne
        rw [if_neg hne]
        exact h
    · rename_i heq
      rw [if_neg heq] at h
      split at h
      · split at h
        · cases h
        · rename_i hne
          rw [if_neg hne]
          exact h
      · exact h
      · split at h
        · cases h
        · rename_i hne
          simp only [if_neg hne]
          exact h
      · cases h
  · cases h

/-- Two relations that agree on the second argument, along one list. -/
theorem forall₂_unique {α β : Type} {R S : α → β → Prop} {as : List α} {bs cs : List β} (h : List.Forall₂ R as bs)
    (h' : List.Forall₂ S as cs) (hu : ∀ a ∈ as, ∀ b c, R a b → S a c → b = c) : bs = cs := by
  induction h generalizing cs with
  | nil => exact (List.forall₂_nil_left_iff.mp h').symm
  | @cons a b as bs hr _ ih =>
    cases h' with
    | cons hs h' => rw [hu a (by simp) _ _ hr hs, ih h' fun a ha => hu a (by simp [ha])]

/-- A node is given the same type wherever and however deep it is. -/
theorem visit_unique {path path' : String} {levels : ℕ} :
    ∀ {levels' : ℕ} {node : Json} {location location' : String} {c d c' d' : ℕ} {type type' : NodeType},
      visit path levels node location c = .ok (type, d) → visit path' levels' node location' c' = .ok (type', d') →
      type = type' := by
  induction levels with
  | zero =>
    intro _ _ _ _ _ _ _ _ _ _ h _
    obtain ⟨_, hl, -⟩ := visit_cases h
    cases hl
  | succ levels ih =>
    intro levels' node location location' c d c' d' type type' h h'
    obtain ⟨l, hl, h⟩ := visit_cases h
    cases hl
    obtain ⟨l', -, h'⟩ := visit_cases h'
    rcases h with ⟨items, types, loc, rfl, hv, -, rfl⟩ | ⟨operator, raw, lo, hi, rfl, -, -, -, hv⟩ | ⟨hn, rfl⟩
    · rcases h' with ⟨_, types', loc', hi', hv', -, rfl⟩ | ⟨_, _, _, _, hi', -⟩ | ⟨hn', -⟩
      · cases hi'
        rw [forall₂_unique (visitEach_ok hv) (visitEach_ok hv')]
        rintro a - b b' ⟨_, _, _, hb⟩ ⟨_, _, _, hb'⟩
        exact ih hb hb'
      · cases hi'
      · exact hn'.elim
    · rcases h' with ⟨_, _, _, hi', -⟩ | ⟨_, _, _, _, hi', -, -, -, hv'⟩ | ⟨hn', -⟩
      · cases hi'
      · cases hi'
        rcases hv with ⟨rfl, hv⟩ | ⟨hne, types, loc, hv, ht⟩
        · rcases hv' with ⟨-, hv'⟩ | ⟨hne', -⟩
          · obtain ⟨name, declared, rest, ha, hd, rfl, -⟩ := checkVariable_ok hv
            obtain ⟨name', declared', rest', ha', hd', rfl, -⟩ := checkVariable_ok hv'
            rw [ha] at ha'
            cases ha'
            rw [hd] at hd'
            cases hd'
            rfl
          · exact absurd rfl hne'
        · rcases hv' with ⟨rfl, -⟩ | ⟨-, types', loc', hv', ht'⟩
          · exact absurd rfl hne
          · have htypes : types = types' := by
              refine forall₂_unique (visitEach_ok hv) (visitEach_ok hv') ?_
              rintro a - b b' ⟨_, _, _, hb⟩ ⟨_, _, _, hb'⟩
              exact ih hb hb'
            rw [htypes, operationType_congr ht'] at ht
            exact (Except.ok.inj ht).symm
      · exact hn'.elim
    · rcases h' with ⟨_, _, _, rfl, -⟩ | ⟨_, _, _, _, rfl, -⟩ | ⟨-, rfl⟩
      · exact hn.elim
      · exact hn.elim
      · rfl

end SoundnessAux

end FraudDetection
