import FraudDetection.Definition
import FraudDetection.Lemmas.Accepted

/-!
# Loading a published rule set back

The content hash is computed on the JSON of the model and checked on the JSON that PostgreSQL gives back. Here: a definition that
was accepted loads back exactly when its stored JSON keeps every number, that is, when no float literal of a condition is `-0.0`
or reaches `1e16`, and PostgreSQL can store its strings, that is, none has U+0000 or half of a surrogate pair.
-/

namespace FraudDetection

open Json

/-- Storing an accepted definition with its content hash, and reading the row back, gives the definition again. -/
def LoadsBack (sha : Sha256) (py : Interpreter) (d : RuleSetDefinition) (label : String) : Prop :=
  ∃ stored raw, Jsonb.ofJson d.modelDump = some stored ∧ stored.toJson = some raw ∧
    loadStoredDefinition sha py raw (contentHash sha d) label = .ok d

/-- No float literal of any condition is `-0.0`, or `1e16` or more in magnitude. -/
def PlainLiterals (d : RuleSetDefinition) : Prop := ∀ rule ∈ d.rules, FloatsPlain (leaves (.obj rule.condition))

/-- No string of a definition contains U+0000 or half of a surrogate pair. -/
structure StorableStrings (d : RuleSetDefinition) : Prop where
  noNull : ∀ s, Json.str s ∈ leaves d.modelDump → '\x00' ∉ s.toList
  noLone : ∀ s, Json.lone s ∉ leaves d.modelDump

namespace StoredAux

/-- A rule as it is read back, with what its condition has become. -/
def storedRule (rule : RuleDefinition) (condition : Json) : Json := .obj [
  ("code", .str rule.code),
  ("score", .int rule.score),
  ("condition", condition),
  ("description", .str rule.description)]

/-- A definition as it is read back, with what its rules have become. -/
def storedDefinition (d : RuleSetDefinition) (rules : List Json) : Json := .obj [
  ("rules", .arr rules),
  ("reject_threshold", .int d.rejectThreshold),
  ("review_threshold", .int d.reviewThreshold),
  ("velocity_window_seconds", .int d.velocityWindowSeconds)]

/-- What a rule becomes: its condition is kept when its floats are plain, and the rest is always kept. -/
def KeptRule (rule : RuleDefinition) (j : Json) : Prop :=
  ∃ c, j = storedRule rule c ∧ SingleKeys c ∧ (c = .obj rule.condition ↔ FloatsPlain (leaves (.obj rule.condition)))

/-! ## Through the `jsonb` column -/

theorem rule_stored {rule : RuleDefinition} (h : ∀ leaf ∈ leaves rule.modelDump, storableLeaf leaf = true) :
    ∃ b j, Jsonb.ofJson rule.modelDump = some b ∧ b.toJson = some j ∧ KeptRule rule j := by
  have hcode : Jsonb.storable rule.code = true := h (.str rule.code) (by simp [RuleDefinition.modelDump, leaves, leavesOfEntries])
  have hdesc : Jsonb.storable rule.description = true :=
    h (.str rule.description) (by simp [RuleDefinition.modelDump, leaves, leavesOfEntries])
  have hcond : ∀ leaf ∈ leaves (.obj rule.condition), storableLeaf leaf = true := by
    intro leaf hl
    refine h leaf ?_
    simp [RuleDefinition.modelDump, leaves, leavesOfEntries] at hl ⊢
    simp [hl]
  obtain ⟨cb, hcb⟩ := Option.isSome_iff_exists.mp ((Jsonb.ofJson_isSome _).mpr hcond)
  obtain ⟨c, hc, hsingle, hiff⟩ := Jsonb.readBack _ (wellFormed_condition rule).1 hcb
  refine ⟨.obj [("code", .str rule.code), ("score", .num (.ofToken (intToken rule.score))), ("condition", cb),
    ("description", .str rule.description)], storedRule rule c, ?_, ?_, c, rfl, hsingle, hiff⟩
  · have hk : Jsonb.storable "code" = true ∧ Jsonb.storable "description" = true ∧ Jsonb.storable "score" = true ∧
        Jsonb.storable "condition" = true := by decide
    unfold RuleDefinition.modelDump
    rw [Jsonb.ofJson]
    simp only [Jsonb.ofEntries, hk, hcode, hdesc, hcb, Jsonb.ofJson.eq_def (.str _), Jsonb.ofJson.eq_def (.int _), if_true,
      Option.bind_eq_bind, Option.bind_some, Option.pure_def, Option.map_some]
    rfl
  · simp only [storedRule, Jsonb.toJson, Jsonb.toEntries, hc, Numeric.loads_int, Option.bind_eq_bind, Option.bind_some,
      Option.pure_def, Option.map_some]

theorem rules_stored {rules : List RuleDefinition}
    (h : ∀ leaf ∈ leavesOfItems (rules.map RuleDefinition.modelDump), storableLeaf leaf = true) :
    ∃ bs js, Jsonb.ofItems (rules.map RuleDefinition.modelDump) = some bs ∧ Jsonb.toItems bs = some js ∧
      List.Forall₂ KeptRule rules js := by
  induction rules with
  | nil => exact ⟨[], [], rfl, rfl, .nil⟩
  | cons rule rules ih =>
    obtain ⟨b, j, hb, hj, hkept⟩ := rule_stored fun leaf hl => h leaf (List.mem_append.mpr (Or.inl hl))
    obtain ⟨bs, js, hbs, hjs, hall⟩ := ih fun leaf hl => h leaf (List.mem_append.mpr (Or.inr hl))
    exact ⟨b :: bs, j :: js, by simp [Jsonb.ofItems, hb, hbs], by simp [Jsonb.toItems, hj, hjs], .cons hkept hall⟩

theorem definition_stored {d : RuleSetDefinition} (h : ∀ leaf ∈ leaves d.modelDump, storableLeaf leaf = true) :
    ∃ b js, Jsonb.ofJson d.modelDump = some b ∧ b.toJson = some (storedDefinition d js) ∧ List.Forall₂ KeptRule d.rules js := by
  have hrules : ∀ leaf ∈ leavesOfItems (d.rules.map RuleDefinition.modelDump), storableLeaf leaf = true := by
    intro leaf hl
    refine h leaf ?_
    simp [RuleSetDefinition.modelDump, leaves, leavesOfEntries, hl]
  obtain ⟨bs, js, hbs, hjs, hall⟩ := rules_stored hrules
  refine ⟨.obj [("rules", .arr bs), ("reject_threshold", .num (.ofToken (intToken d.rejectThreshold))),
    ("review_threshold", .num (.ofToken (intToken d.reviewThreshold))),
    ("velocity_window_seconds", .num (.ofToken (intToken d.velocityWindowSeconds)))], js, ?_, ?_, hall⟩
  · have hk : Jsonb.storable "velocity_window_seconds" = true ∧ Jsonb.storable "review_threshold" = true ∧
        Jsonb.storable "reject_threshold" = true ∧ Jsonb.storable "rules" = true := by decide
    unfold RuleSetDefinition.modelDump
    rw [Jsonb.ofJson]
    simp only [Jsonb.ofEntries, hk, hbs, Jsonb.ofJson.eq_def (.arr _), Jsonb.ofJson.eq_def (.int _), if_true,
      Option.bind_eq_bind, Option.bind_some, Option.pure_def, Option.map_some]
    have hsize : "velocity_window_seconds".utf8ByteSize = 23 ∧ "review_threshold".utf8ByteSize = 16 ∧
        "reject_threshold".utf8ByteSize = 16 ∧ "rules".utf8ByteSize = 5 := by decide
    simp [Jsonb.keyLE, hsize]
  · simp only [storedDefinition, Jsonb.toJson, Jsonb.toEntries, hjs, Numeric.loads_int, Option.bind_eq_bind, Option.bind_some,
      Option.pure_def, Option.map_some]

/-! ## The hash of what is read back -/

theorem sortKeys_rule (rule : RuleDefinition) : sortKeys rule.modelDump = .obj [
    ("code", .str rule.code), ("condition", .obj rule.condition), ("description", .str rule.description),
    ("score", .int rule.score)] := by
  have hc := sortKeys_of_single _ (wellFormed_condition rule).1
  simp only [RuleDefinition.modelDump, sortKeys.eq_def (.obj (_ :: _ :: _)), sortEntries, hc, sortKeys.eq_def (.str _),
    sortKeys.eq_def (.int _)]
  simp

theorem sortKeys_storedRule (rule : RuleDefinition) {c : Json} (h : SingleKeys c) : sortKeys (storedRule rule c) = .obj [
    ("code", .str rule.code), ("condition", c), ("description", .str rule.description), ("score", .int rule.score)] := by
  have hc := sortKeys_of_single c h
  simp only [storedRule, sortKeys.eq_def (.obj (_ :: _ :: _)), sortEntries, hc, sortKeys.eq_def (.str _),
    sortKeys.eq_def (.int _)]
  simp

theorem sortKeys_definition (d : RuleSetDefinition) : sortKeys d.modelDump = .obj [
    ("reject_threshold", .int d.rejectThreshold), ("review_threshold", .int d.reviewThreshold),
    ("rules", .arr (sortItems (d.rules.map RuleDefinition.modelDump))),
    ("velocity_window_seconds", .int d.velocityWindowSeconds)] := by
  simp only [RuleSetDefinition.modelDump, sortKeys, sortEntries]
  simp

theorem sortKeys_storedDefinition (d : RuleSetDefinition) (js : List Json) : sortKeys (storedDefinition d js) = .obj [
    ("reject_threshold", .int d.rejectThreshold), ("review_threshold", .int d.reviewThreshold),
    ("rules", .arr (sortItems js)), ("velocity_window_seconds", .int d.velocityWindowSeconds)] := by
  simp only [storedDefinition, sortKeys, sortEntries]
  simp

/-- The rules read back are the published ones, up to the order of their keys, exactly when their floats are plain. -/
theorem sortItems_iff {rules : List RuleDefinition} {js : List Json} (h : List.Forall₂ KeptRule rules js) :
    sortItems js = sortItems (rules.map RuleDefinition.modelDump) ↔
      ∀ rule ∈ rules, FloatsPlain (leaves (.obj rule.condition)) := by
  induction h with
  | nil => simp [sortItems]
  | @cons rule j rules js hkept _ ih =>
    obtain ⟨c, rfl, hsingle, hiff⟩ := hkept
    rw [List.map_cons, sortItems, sortItems, List.cons.injEq, ih, sortKeys_storedRule rule hsingle, sortKeys_rule rule]
    simp [hiff]

theorem hash_iff (sha : Sha256) {d : RuleSetDefinition} {js : List Json} (h : List.Forall₂ KeptRule d.rules js) :
    definitionJsonHash sha (storedDefinition d js) = contentHash sha d ↔ PlainLiterals d := by
  unfold contentHash definitionJsonHash PlainLiterals
  rw [sha.injective.eq_iff, canonical_eq_iff, sortKeys_storedDefinition, sortKeys_definition, ← sortItems_iff h]
  simp

/-! ## Validating what is read back -/

theorem checkInt_int (py : Interpreter) {ge : ℕ} (le : Option ℕ) {n : ℕ} (h : ge ≤ n) (h' : ∀ m ∈ le, n ≤ m) :
    checkInt py ge le (.int n) = .ok ⟨n, h, h'⟩ := by
  unfold checkInt
  rw [py.laxInt_int]
  simp only [Nat.cast_le, h, dite_true, Int.toNat_natCast]
  rw [dif_pos h']

/-- The fields of a rule are read as the rule, in any order. -/
theorem checkRule_fields (py : Interpreter) (rule : RuleDefinition) {entries : List (String × Json)}
    (hcode : lookup entries "code" = some (.str rule.code))
    (hdescription : lookup entries "description" = some (.str rule.description))
    (hscore : lookup entries "score" = some (.int rule.score))
    (hcondition : lookup entries "condition" = some (.obj rule.condition))
    (hextra : checkExtra entries ["code", "description", "score", "condition"] = .ok ()) :
    checkRule py (.obj entries) = .ok rule := by
  have hcode' : checkCode (.str rule.code) = .ok ⟨rule.code, rule.code_ok⟩ := by simp [checkCode, rule.code_ok]
  have hdescription' : checkDescription (.str rule.description) = .ok ⟨rule.description, rule.description_ok⟩ := by
    simp [checkDescription, rule.description_ok.1, rule.description_ok.2]
  have hscore' : checkInt py 0 (some 1000) (.int rule.score) = .ok ⟨rule.score, Nat.zero_le _, by simpa using rule.score_ok⟩ :=
    checkInt_int py _ (Nat.zero_le _) (by simpa using rule.score_ok)
  have hcondition' : checkCondition py (.obj rule.condition) = .ok ⟨rule.condition, rule.condition_ok⟩ := by
    unfold checkCondition
    simp only
    split
    · rfl
    · rename_i e he
      rw [rule.condition_ok] at he
      cases he
  unfold checkRule
  simp [checkField, hcode, hdescription, hscore, hcondition, hcode', hdescription', hscore', hcondition', hextra, Checked.at,
    Checked.both]

/-- A rule whose condition was kept is read as itself. -/
theorem checkRule_storedRule (py : Interpreter) (rule : RuleDefinition) :
    checkRule py (storedRule rule (.obj rule.condition)) = .ok rule :=
  checkRule_fields py rule (by simp [lookup_cons]) (by simp [lookup_cons]) (by simp [lookup_cons]) (by simp [lookup_cons])
    (by simp [checkExtra])

/-- A rule that was dumped is read as itself. -/
theorem checkRule_modelDump (py : Interpreter) (rule : RuleDefinition) : checkRule py rule.modelDump = .ok rule :=
  checkRule_fields py rule (by simp [lookup_cons]) (by simp [lookup_cons]) (by simp [lookup_cons]) (by simp [lookup_cons])
    (by simp [checkExtra])

/-- A list of rules is read as itself when each rule is. -/
theorem checkItems_rules {py : Interpreter} {write : RuleDefinition → Json} (hwrite : ∀ rule, checkRule py (write rule) = .ok rule)
    (given : ℕ) (rules : List RuleDefinition) :
    ∀ (index : ℕ) (valid : List RuleDefinition), valid.length + rules.length ≤ 50 →
      checkItems (checkRule py) 50 given index (rules.map write) valid [] = .ok (valid ++ rules) := by
  induction rules with
  | nil => intro index valid _; simp [checkItems]
  | cons rule rules ih =>
    intro index valid hlen
    rw [List.length_cons] at hlen
    rw [List.map_cons, checkItems, hwrite, Checked.at]
    simp only
    rw [if_neg (by omega), ih _ _ (by rw [List.length_append, List.length_singleton]; omega), List.append_assoc]
    rfl

/-- The rules of a definition are read as themselves when each rule is. -/
theorem checkRules_rules {py : Interpreter} {write : RuleDefinition → Json} (hwrite : ∀ rule, checkRule py (write rule) = .ok rule)
    (d : RuleSetDefinition) : checkRules py (.arr (d.rules.map write)) = .ok ⟨d.rules, d.rules_ok, d.codes_ok⟩ := by
  unfold checkRules
  simp only
  rw [checkItems_rules hwrite _ _ _ _ (by simpa using d.rules_ok.2)]
  simp [d.rules_ok.1, d.rules_ok.2, d.codes_ok]

/-- The fields of a definition are read as the definition, in any order. -/
theorem modelValidate_fields {py : Interpreter} (d : RuleSetDefinition) {write : RuleDefinition → Json}
    (hwrite : ∀ rule, checkRule py (write rule) = .ok rule) {entries : List (String × Json)}
    (hwindow : lookup entries "velocity_window_seconds" = some (.int d.velocityWindowSeconds))
    (hreview : lookup entries "review_threshold" = some (.int d.reviewThreshold))
    (hreject : lookup entries "reject_threshold" = some (.int d.rejectThreshold))
    (hrules : lookup entries "rules" = some (.arr (d.rules.map write)))
    (hextra : checkExtra entries ["velocity_window_seconds", "review_threshold", "reject_threshold", "rules"] = .ok ()) :
    modelValidate py (.obj entries) = .ok d := by
  have hwindow' := checkInt_int py (some 86400) d.window_ok.1 (by simpa using d.window_ok.2)
  have hreview' := checkInt_int py none d.review_ok (by simp)
  have hreject' := checkInt_int py none d.reject_ok (by simp)
  have hrules' := checkRules_rules hwrite d
  unfold modelValidate
  simp [checkField, hwindow, hreview, hreject, hrules, hwindow', hreview', hreject', hrules', hextra, Checked.at, Checked.both,
    d.ordered_ok]

/-- A definition whose conditions were kept is read as itself. -/
theorem modelValidate_storedDefinition (py : Interpreter) (d : RuleSetDefinition) :
    modelValidate py (storedDefinition d (d.rules.map fun rule => storedRule rule (.obj rule.condition))) = .ok d :=
  modelValidate_fields d (checkRule_storedRule py) (by simp [lookup_cons]) (by simp [lookup_cons]) (by simp [lookup_cons])
    (by simp [lookup_cons]) (by simp [checkExtra])

/-- A definition that was dumped is read as itself. -/
theorem modelValidate_modelDump (py : Interpreter) (d : RuleSetDefinition) : modelValidate py d.modelDump = .ok d :=
  modelValidate_fields d (checkRule_modelDump py) (by simp [lookup_cons]) (by simp [lookup_cons]) (by simp [lookup_cons])
    (by simp [lookup_cons]) (by simp [checkExtra])

/-- The rules read back, when their floats are plain. -/
theorem keptRules_eq {rules : List RuleDefinition} {js : List Json} (h : List.Forall₂ KeptRule rules js)
    (hp : ∀ rule ∈ rules, FloatsPlain (leaves (.obj rule.condition))) :
    js = rules.map fun rule => storedRule rule (.obj rule.condition) := by
  induction h with
  | nil => rfl
  | @cons rule j rules js hkept _ ih =>
    obtain ⟨c, rfl, -, hiff⟩ := hkept
    rw [List.map_cons, hiff.mpr (hp rule (by simp)), ih fun r hr => hp r (by simp [hr])]

/-- A definition that was accepted passes the dry run. -/
theorem dryRun_of_parse {py : Interpreter} {raw : Json} {d : RuleSetDefinition} (h : parseRuleSetDefinition py raw = .ok d) :
    ∃ a, evaluateRuleSet d dryRunContext = .ok a := by
  unfold parseRuleSetDefinition at h
  split at h
  · cases h
  · split at h
    · rename_i a ha
      cases h
      exact ⟨a, ha⟩
    · cases h
    · cases h
    · cases h

/-- The floats of a rule are those of its condition. -/
theorem float_of_rules {rules : List RuleDefinition} {f : PyFloat}
    (h : Json.float f ∈ leavesOfItems (rules.map RuleDefinition.modelDump)) :
    ∃ rule ∈ rules, Json.float f ∈ leaves (.obj rule.condition) := by
  induction rules with
  | nil => simp [leavesOfItems] at h
  | cons rule rules ih =>
    rcases List.mem_append.mp h with h | h
    · refine ⟨rule, by simp, ?_⟩
      simpa [RuleDefinition.modelDump, leaves, leavesOfEntries] using h
    · obtain ⟨r, hr, hf⟩ := ih h
      exact ⟨r, by simp [hr], hf⟩

/-- PostgreSQL stores a definition when it can store its strings: the floats of an accepted condition are finite. -/
theorem storable_leaves {d : RuleSetDefinition} (h : StorableStrings d) : ∀ leaf ∈ leaves d.modelDump, storableLeaf leaf = true := by
  intro leaf hl
  cases leaf with
  | str s => simpa [storableLeaf, Jsonb.storable] using h.noNull s hl
  | lone s => exact absurd hl (h.noLone s)
  | float f =>
    have hf : Json.float f ∈ leavesOfItems (d.rules.map RuleDefinition.modelDump) := by
      simpa [RuleSetDefinition.modelDump, leaves, leavesOfEntries] using hl
    obtain ⟨rule, -, hm⟩ := float_of_rules hf
    exact (wellFormed_condition rule).2 f hm
  | _ => rfl

/-- What loading a stored definition comes to: itself when its literals are plain, and otherwise the refusal of a row that was
changed. -/
theorem load_stored (sha : Sha256) (py : Interpreter) (label : String) {d : RuleSetDefinition} {b : Jsonb} {a : Assessment}
    (hb : Jsonb.ofJson d.modelDump = some b) (hrun : evaluateRuleSet d dryRunContext = .ok a) :
    ∃ raw, b.toJson = some raw ∧
      (PlainLiterals d → loadStoredDefinition sha py raw (contentHash sha d) label = .ok d) ∧
      (¬PlainLiterals d → loadStoredDefinition sha py raw (contentHash sha d) label = .error (.changed label)) := by
  have hleaves := (Jsonb.ofJson_isSome d.modelDump).mp (by rw [hb]; rfl)
  obtain ⟨b', js, hb', hj, hkept⟩ := definition_stored hleaves
  rw [hb] at hb'
  cases hb'
  refine ⟨_, hj, fun hp => ?_, fun hp => ?_⟩
  · unfold loadStoredDefinition
    rw [if_neg (not_not.mpr ((hash_iff sha hkept).mpr hp)), keptRules_eq hkept hp, modelValidate_storedDefinition]
    simp only [hrun]
  · unfold loadStoredDefinition
    rw [if_pos fun hh => hp ((hash_iff sha hkept).mp hh)]

/-- A definition is stored when its strings can be. -/
theorem stored_iff (d : RuleSetDefinition) : (Jsonb.ofJson d.modelDump).isSome = true ↔ StorableStrings d := by
  rw [Jsonb.ofJson_isSome]
  constructor
  · intro h
    refine ⟨fun s hs => ?_, fun s hs => ?_⟩
    · simpa [storableLeaf, Jsonb.storable] using h _ hs
    · exact Bool.false_ne_true (h _ hs)
  · exact storable_leaves

/-- A definition that passed the dry run loads back exactly when its numbers and strings survive. -/
theorem loadsBack_iff {sha : Sha256} {py : Interpreter} {d : RuleSetDefinition} {a : Assessment} {label : String}
    (hrun : evaluateRuleSet d dryRunContext = .ok a) :
    LoadsBack sha py d label ↔ PlainLiterals d ∧ StorableStrings d := by
  constructor
  · rintro ⟨stored, raw, hstored, hraw, hload⟩
    refine ⟨?_, (stored_iff d).mp (by rw [hstored]; rfl)⟩
    obtain ⟨raw', hraw', -, hchanged⟩ := load_stored sha py label hstored hrun
    rw [hraw] at hraw'
    cases hraw'
    by_contra hp
    rw [hchanged hp] at hload
    cases hload
  · rintro ⟨hp, hs⟩
    obtain ⟨stored, hstored⟩ := Option.isSome_iff_exists.mp ((stored_iff d).mpr hs)
    obtain ⟨raw, hraw, hload, -⟩ := load_stored sha py label hstored hrun
    exact ⟨stored, raw, hstored, hraw, hload hp⟩

end StoredAux

open StoredAux

/-- A definition that `parse_rule_set_definition` accepts, stored with its content hash and read back, loads as itself exactly
when none of its float literals is `-0.0` or reaches `1e16`, and none of its strings contains U+0000 or half of a surrogate pair. -/
theorem published_loadsBack_iff (sha : Sha256) {py : Interpreter} {body : Json} {d : RuleSetDefinition}
    (h : parseRuleSetDefinition py body = .ok d) (label : String) :
    LoadsBack sha py d label ↔ PlainLiterals d ∧ StorableStrings d := by
  obtain ⟨a, ha⟩ := dryRun_of_parse h
  exact loadsBack_iff ha

namespace RoundTripExample

/-- An interpreter whose whole-number fields take whole numbers only. -/
def interpreter : Interpreter where
  laxInt
    | .int n => .ok n
    | _ => .error "Input should be a valid integer"
  laxInt_int := fun _ => rfl
  repr := fun _ => ""

/-- A digest that is the text itself. -/
def digest : Sha256 := ⟨id, fun _ _ h => h⟩

/-- A rule on an amount above some literal. -/
def amountAbove (literal : Json) : List (String × Json) := [(">", .arr [.obj [("var", .str "amount")], literal])]

/-- A rule set of one rule. -/
def body (literal : Json) : Json := .obj [
  ("velocity_window_seconds", .int 60), ("review_threshold", .int 30), ("reject_threshold", .int 75),
  ("rules", .arr [.obj [("code", .str "LARGE_AMOUNT"), ("description", .str "Very large."), ("score", .int 40),
    ("condition", .obj (amountAbove literal))]])]

/-- What it parses to. -/
def definition (literal : Json) (h : validateExpression (.obj (amountAbove literal)) "condition" = .ok ()) :
    RuleSetDefinition where
  velocityWindowSeconds := 60
  reviewThreshold := 30
  rejectThreshold := 75
  rules := [⟨"LARGE_AMOUNT", "Very large.", 40, amountAbove literal, by decide, by decide, by decide, h⟩]
  window_ok := by decide
  review_ok := by decide
  reject_ok := by decide
  rules_ok := by simp
  codes_ok := by simp
  ordered_ok := by decide

theorem whole_accepted : validateExpression (.obj (amountAbove (.int 10000))) "condition" = .ok () := rfl

/-- The rule set `amount > 10000`. -/
def whole : RuleSetDefinition := definition (.int 10000) whole_accepted

/-- The string `"\ud800"`. -/
def half : LoneStr := ⟨[0xD800], ⟨by simp, by simp⟩, ⟨0xD800, by simp, by decide⟩⟩

/-- A rule on a currency that is half of a surrogate pair. -/
def currencyHalf : List (String × Json) := [("==", .arr [.obj [("var", .str "currency")], .lone half])]

theorem halved_accepted : validateExpression (.obj currencyHalf) "condition" = .ok () := rfl

/-- The rule set `currency == "\ud800"`. -/
def halved : RuleSetDefinition :=
  { whole with
    rules := [⟨"HALF_CURRENCY", "No currency.", 40, currencyHalf, by decide, by decide, by decide, halved_accepted⟩]
    rules_ok := by simp
    codes_ok := by simp }

/-- The body it is parsed from. -/
def halvedBody : Json := .obj [
  ("velocity_window_seconds", .int 60), ("review_threshold", .int 30), ("reject_threshold", .int 75),
  ("rules", .arr [.obj [("code", .str "HALF_CURRENCY"), ("description", .str "No currency."), ("score", .int 40),
    ("condition", .obj currencyHalf)]])]

theorem whole_plain : PlainLiterals whole := by
  intro rule hrule
  rw [List.mem_singleton.mp hrule]
  intro f hf
  simp [amountAbove, leaves, leavesOfEntries, leavesOfItems] at hf

theorem half_leaf : Json.lone half ∈ leaves halved.modelDump := by
  simp [halved, whole, definition, RuleSetDefinition.modelDump, RuleDefinition.modelDump, currencyHalf, leaves, leavesOfEntries,
    leavesOfItems]

/-- The float `1e16`. -/
def tenQuadrillion : Json := .float (.finite ⟨false, 1, 16, by decide, by decide⟩)

end RoundTripExample

open RoundTripExample in
/-- The rule `amount > 10000` loads back: its literal is a whole number. The rule `currency == "\ud800"`, which is accepted too, does
not: PostgreSQL refuses its literal. -/
theorem published_loadsBack_iff_whole :
    LoadsBack digest interpreter whole "fraud-default@v2" ∧ ¬LoadsBack digest interpreter halved "fraud-default@v2" := by
  constructor
  · refine (@published_loadsBack_iff digest interpreter (body (.int 10000)) _ rfl "fraud-default@v2").mpr ⟨whole_plain, ?_⟩
    exact (stored_iff whole).mp rfl
  · intro h
    have hboth := (@published_loadsBack_iff digest interpreter halvedBody halved rfl "fraud-default@v2").mp h
    exact hboth.2.noLone half half_leaf

open RoundTripExample in
/-- The rule `amount > 1e16` is accepted and does not load back: `jsonb` gives `10000000000000000`, which Python reads as an
`int` and hashes differently. -/
theorem published_loadsBack_false :
    ∃ d, parseRuleSetDefinition interpreter (body tenQuadrillion) = .ok d ∧
      ¬LoadsBack digest interpreter d "fraud-default@v2" := by
  refine ⟨definition tenQuadrillion rfl, rfl, fun h => ?_⟩
  obtain ⟨a, ha⟩ := @dryRun_of_parse interpreter (body tenQuadrillion) _ rfl
  have hplain := ((loadsBack_iff ha).mp h).1 _ List.mem_cons_self ⟨false, 1, 16, by decide, by decide⟩
    (by simp [amountAbove, tenQuadrillion, leaves, leavesOfEntries, leavesOfItems])
  have := hplain.2
  norm_num at this

end FraudDetection
