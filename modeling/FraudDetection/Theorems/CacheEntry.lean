import FraudDetection.Theorems.Traceability

/-!
# Reading a cached rule set back

A row is checked on the JSON it stores, and the Redis entry holds the dump of what was read, beside the row's hash. The two hash the
same exactly when the row stores each whole number as one: other JSON values that pydantic takes for a number are dumped as numbers.
-/

namespace FraudDetection

open Json

/-- A whole number is stored under a key. -/
def StoresInt (entries : List (String × Json)) (key : String) : Prop := ∃ n, lookup entries key = some (.int n)

/-- A stored rule has a whole number for its score. -/
def WholeScore (rule : Json) : Prop := ∃ entries, rule = .obj entries ∧ StoresInt entries "score"

/-- Every whole-number field of a stored definition has a whole number, and not another JSON value that is read as one. -/
def WholeNumbers (raw : Json) : Prop := ∃ entries items, raw = .obj entries ∧ StoresInt entries "velocity_window_seconds" ∧
  StoresInt entries "review_threshold" ∧ StoresInt entries "reject_threshold" ∧ lookup entries "rules" = some (.arr items) ∧
    ∀ rule ∈ items, WholeScore rule

namespace CacheEntryAux

open TamperingAux

/-! ## What the checks accept -/

theorem checkField_ok {α : Type} {entries : List (String × Json)} {name : String} {check : Json → Checked α} {a : α}
    (h : checkField entries name check = .ok a) : ∃ value, lookup entries name = some value ∧ check value = .ok a := by
  unfold checkField at h
  cases hv : lookup entries name with
  | none =>
    rw [hv] at h
    cases h
  | some value =>
    rw [hv, Checked.at_eq_ok] at h
    exact ⟨value, rfl, h⟩

theorem checkCode_ok {value : Json} {a : {s : String // codePattern s = true}} (h : checkCode value = .ok a) : value = .str a.1 := by
  cases value with
  | str s =>
    simp only [checkCode] at h
    split at h
    · cases h
      rfl
    · cases h
  | _ => cases h

theorem checkDescription_ok {value : Json} {a : {s : String // 1 ≤ s.length ∧ s.length ≤ 500}}
    (h : checkDescription value = .ok a) : value = .str a.1 := by
  cases value with
  | str s =>
    simp only [checkDescription] at h
    split at h
    · split at h
      · cases h
        rfl
      · cases h
    · cases h
  | _ => cases h

theorem checkCondition_ok {py : Interpreter} {value : Json}
    {a : {c : List (String × Json) // validateExpression (.obj c) "condition" = .ok ()}} (h : checkCondition py value = .ok a) :
    value = .obj a.1 := by
  cases value with
  | obj c =>
    simp only [checkCondition] at h
    split at h
    · cases h
      rfl
    · cases h
  | _ => cases h

/-- A whole number is read as itself. -/
theorem checkInt_value {py : Interpreter} {ge : ℕ} {le : Option ℕ} {m : ℤ} {a : {n : ℕ // ge ≤ n ∧ ∀ m ∈ le, n ≤ m}}
    (h : checkInt py ge le (.int m) = .ok a) : m = a.1 := by
  unfold checkInt at h
  rw [py.laxInt_int] at h
  simp only at h
  split at h
  · rename_i hge
    split at h
    · cases h
      exact (Int.toNat_of_nonneg ((Int.natCast_nonneg ge).trans hge)).symm
    · cases h
  · cases h

/-- The items of a list that is accepted are. -/
theorem checkItems_ok {α : Type} {check : Json → Checked α} (hexplains : ∀ v, Explains (check v)) {maximum given : ℕ}
    {items : List Json} : ∀ {index : ℕ} {valid rs : List α}, checkItems check maximum given index items valid [] = .ok rs →
      ∃ new, rs = valid ++ new ∧ List.Forall₂ (fun item r => check item = .ok r) items new := by
  induction items with
  | nil =>
    intro index valid rs h
    cases h
    exact ⟨[], (List.append_nil _).symm, .nil⟩
  | cons item items ih =>
    intro index valid rs h
    rw [checkItems] at h
    cases hr : check item with
    | error errors =>
      rw [hr] at h
      have hne : errors ≠ [] := by
        rintro rfl
        exact hexplains item hr
      exact absurd h (checkItems_errors (by simp [hne]))
    | ok a =>
      rw [hr] at h
      simp only [Checked.at] at h
      split at h
      · cases h
      · obtain ⟨new, rfl, hnew⟩ := ih h
        exact ⟨a :: new, List.append_assoc valid [a] new, .cons hr hnew⟩

/-- Rules that are accepted are a list of such. -/
theorem checkRules_ok {py : Interpreter} {value : Json}
    {rs : {rules : List RuleDefinition // (1 ≤ rules.length ∧ rules.length ≤ 50) ∧ (rules.map (·.code)).Nodup}}
    (h : checkRules py value = .ok rs) :
    ∃ items, value = .arr items ∧ List.Forall₂ (fun item rule => checkRule py item = .ok rule) items rs.1 := by
  cases value with
  | arr items =>
    refine ⟨items, rfl, ?_⟩
    unfold checkRules at h
    obtain ⟨checked, hchecked, h⟩ := Except.bind_eq_ok.mp h
    obtain ⟨new, rfl, hnew⟩ := checkItems_ok (explains_checkRule py) hchecked
    split at h
    · split at h
      · cases h
        exact hnew
      · cases h
    · cases h
  | _ => cases h

/-! ## Objects with the fields of a model -/

/-- Nothing is found under a key that is no field. -/
theorem lookup_extra {entries : List (String × Json)} {fields : List String} {u : Unit} (h : checkExtra entries fields = .ok u)
    {key : String} (hk : key ∉ fields) : lookup entries key = none := by
  cases hv : lookup entries key with
  | none => rfl
  | some value => exact absurd (checkExtra_eq_ok.mp h key (List.mem_map.mpr ⟨_, mem_of_lookup hv, rfl⟩)) hk

/-- A value that is the same up to order as a whole number is that number. -/
theorem eq_int {value : Json} {n : ℤ} (h : sortKeys value = .int n) : value = .int n := by
  cases value <;> simp_all [sortKeys]

/-- A number that is read as another value's number is the same up to order only where it is that number. -/
theorem storesInt_iff {py : Interpreter} {ge : ℕ} {le : Option ℕ} {entries : List (String × Json)} {key : String} {value : Json}
    {a : {n : ℕ // ge ≤ n ∧ ∀ m ∈ le, n ≤ m}} (hl : lookup entries key = some value) (h : checkInt py ge le value = .ok a) :
    (lookup entries key).map sortKeys = some (.int a.1) ↔ StoresInt entries key := by
  rw [hl, Option.map_some, Option.some.injEq]
  unfold StoresInt
  rw [hl]
  constructor
  · intro hs
    exact ⟨a.1, congrArg some (eq_int hs)⟩
  · rintro ⟨m, hm⟩
    cases hm
    rw [sortKeys, checkInt_value h]

/-- An object with no keys but those of a dump is the same up to order when its value under each of them is. -/
theorem sortKeys_dump {entries dump : List (String × Json)} (hx : (entries.map (·.1)).Nodup) (hy : (dump.map (·.1)).Nodup)
    {u : Unit} (hextra : checkExtra entries (dump.map (·.1)) = .ok u)
    (h : ∀ field ∈ dump, (lookup entries field.1).map sortKeys = some (sortKeys field.2)) :
    sortKeys (.obj entries) = sortKeys (.obj dump) := by
  refine sortKeys_of_lookup hx hy fun key => ?_
  by_cases hkey : key ∈ dump.map (·.1)
  · obtain ⟨field, hfield, rfl⟩ := List.mem_map.mp hkey
    rw [h field hfield, lookup_of_mem hy hfield]
    rfl
  · have hnone : lookup dump key = none := by
      cases hv : lookup dump key with
      | none => rfl
      | some value => exact absurd (List.mem_map.mpr ⟨_, mem_of_lookup hv, rfl⟩) hkey
    rw [lookup_extra hextra hkey, hnone]

/-- A stored rule is the same up to order as its dump just if it has a whole number for its score. -/
theorem sortKeys_rule_iff {py : Interpreter} {value : Json} {rule : RuleDefinition} (hd : DistinctKeys value)
    (h : checkRule py value = .ok rule) :
    DistinctKeys rule.modelDump ∧ (sortKeys value = sortKeys rule.modelDump ↔ WholeScore value) := by
  cases value with
  | obj entries =>
    unfold checkRule at h
    obtain ⟨fields, hfields, hr⟩ := Except.bind_eq_ok.mp h
    rw [Checked.both_eq_ok, Checked.both_eq_ok, Checked.both_eq_ok, Checked.both_eq_ok] at hfields
    obtain ⟨⟨⟨⟨hcode, hdescription⟩, hscore⟩, hcondition⟩, hextra⟩ := hfields
    obtain ⟨code, hlcode, hcode⟩ := checkField_ok hcode
    obtain ⟨description, hldescription, hdescription⟩ := checkField_ok hdescription
    obtain ⟨score, hlscore, hscore⟩ := checkField_ok hscore
    obtain ⟨condition, hlcondition, hcondition⟩ := checkField_ok hcondition
    have hwhole := storesInt_iff hlscore hscore
    rw [checkCode_ok hcode] at hlcode
    rw [checkDescription_ok hdescription] at hldescription
    rw [checkCondition_ok hcondition] at hlcondition
    cases hr
    have hdump : DistinctKeys (.obj [("code", .str fields.1.1.1.1.1), ("description", .str fields.1.1.1.2.1),
        ("score", .int fields.1.1.2.1), ("condition", .obj fields.1.2.1)]) := by
      refine ⟨by simp, trivial, trivial, trivial, ?_, trivial⟩
      exact distinctKeys_of_mem hd.2 (mem_of_lookup hlcondition)
    refine ⟨hdump, ?_, ?_⟩
    · intro hs
      obtain ⟨ys, hys, -, hlookup⟩ := lookup_congr hd hdump hs
      cases hys
      exact ⟨entries, rfl, hwhole.mp (by rw [hlookup]; simp [lookup_cons, sortKeys])⟩
    · rintro ⟨entries', heq, hint⟩
      cases heq
      refine sortKeys_dump hd.1 hdump.1 hextra ?_
      simp only [List.forall_mem_cons, hlcode, hldescription, hwhole.mpr hint, hlcondition, Option.map_some, sortKeys]
      simp
  | _ => cases h

/-- The rules of a stored definition are the same up to order as their dumps just if each has a whole number for its score. -/
theorem sortKeys_rules_iff {py : Interpreter} {items : List Json} {rules : List RuleDefinition}
    (h : List.Forall₂ (fun item rule => checkRule py item = .ok rule) items rules) (hd : DistinctKeysItems items) :
    DistinctKeysItems (rules.map RuleDefinition.modelDump) ∧
      (sortKeys (.arr items) = sortKeys (.arr (rules.map RuleDefinition.modelDump)) ↔ ∀ item ∈ items, WholeScore item) := by
  rw [sortItems_eq_iff_forall₂]
  induction h with
  | nil => simp [DistinctKeysItems]
  | cons hrule _ ih =>
    obtain ⟨hdump, hiff⟩ := sortKeys_rule_iff hd.1 hrule
    obtain ⟨hdumps, hiffs⟩ := ih hd.2
    refine ⟨⟨hdump, hdumps⟩, ?_⟩
    rw [List.map_cons, List.forall₂_cons, hiff, hiffs, List.forall_mem_cons]

/-- A stored definition is the same up to order as its dump just if every whole-number field has a whole number. -/
theorem sortKeys_definition_iff {py : Interpreter} {raw : Json} {d : RuleSetDefinition} (hd : DistinctKeys raw)
    (h : modelValidate py raw = .ok d) : sortKeys raw = sortKeys d.modelDump ↔ WholeNumbers raw := by
  cases raw with
  | obj entries =>
    unfold modelValidate at h
    obtain ⟨⟨⟨⟨⟨n, m⟩, k⟩, rs⟩, u⟩, hfields, hr⟩ := Except.bind_eq_ok.mp h
    rw [Checked.both_eq_ok, Checked.both_eq_ok, Checked.both_eq_ok, Checked.both_eq_ok] at hfields
    obtain ⟨⟨⟨⟨hwindow, hreview⟩, hreject⟩, hrules⟩, hextra⟩ := hfields
    obtain ⟨window, hlwindow, hwindow⟩ := checkField_ok hwindow
    obtain ⟨review, hlreview, hreview⟩ := checkField_ok hreview
    obtain ⟨reject, hlreject, hreject⟩ := checkField_ok hreject
    obtain ⟨rules, hlrules, hrules⟩ := checkField_ok hrules
    have hwholeWindow := storesInt_iff hlwindow hwindow
    have hwholeReview := storesInt_iff hlreview hreview
    have hwholeReject := storesInt_iff hlreject hreject
    obtain ⟨items, rfl, hitems⟩ := checkRules_ok hrules
    obtain ⟨hdumps, hscores⟩ := sortKeys_rules_iff hitems (distinctKeys_of_mem hd.2 (mem_of_lookup hlrules))
    simp only at hr
    split at hr
    · cases hr
      have hdump : DistinctKeys (.obj [("velocity_window_seconds", .int n.1), ("review_threshold", .int m.1),
          ("reject_threshold", .int k.1), ("rules", .arr (rs.1.map RuleDefinition.modelDump))]) :=
        ⟨by simp, trivial, trivial, trivial, hdumps, trivial⟩
      constructor
      · intro hs
        obtain ⟨ys, hys, -, hlookup⟩ := lookup_congr hd hdump hs
        cases hys
        have hrules := hlookup "rules"
        rw [hlrules] at hrules
        refine ⟨entries, items, rfl, hwholeWindow.mp ?_, hwholeReview.mp ?_, hwholeReject.mp ?_, hlrules, hscores.mp ?_⟩
        · rw [hlookup]
          simp [lookup_cons, sortKeys]
        · rw [hlookup]
          simp [lookup_cons, sortKeys]
        · rw [hlookup]
          simp [lookup_cons, sortKeys]
        · simpa [lookup_cons] using hrules
      · rintro ⟨entries', items', heq, hwindow, hreview, hreject, hlrules', hwhole⟩
        cases heq
        rw [hlrules] at hlrules'
        cases hlrules'
        refine sortKeys_dump hd.1 hdump.1 hextra ?_
        simp only [List.forall_mem_cons, hwholeWindow.mpr hwindow, hwholeReview.mpr hreview, hwholeReject.mpr hreject, hlrules,
          Option.map_some, hscores.mpr hwhole]
        simp [sortKeys]
    · cases hr
  | _ => cases h

/-- The entry of a rule set is read back just if its definition is dumped as what its hash is of. -/
theorem readsBack_iff {sha : Sha256} {py : Interpreter} {ruleSet : RuleSet} {raw : Json} {label : String}
    (h : loadStoredDefinition sha py raw ruleSet.contentHash label = .ok ruleSet.definition) :
    deserialise sha py (serialise ruleSet) = .ok (some ruleSet) ↔ sortKeys raw = sortKeys ruleSet.definition.modelDump := by
  obtain ⟨hhash, -, hrun⟩ := load_eq_ok.mp h
  have hsame : definitionJsonHash sha ruleSet.definition.modelDump = ruleSet.contentHash ↔
      sortKeys raw = sortKeys ruleSet.definition.modelDump := by
    rw [← hhash]
    unfold definitionJsonHash
    rw [sha.injective.eq_iff, canonical_eq_iff, eq_comm]
  rw [← hsame]
  constructor
  · intro hback
    obtain ⟨hload, -⟩ := TraceAux.deserialise_ok hback
    exact (load_eq_ok.mp hload).1
  · intro hdump
    have hload : loadStoredDefinition sha py ruleSet.definition.modelDump ruleSet.contentHash
        (ruleSetLabel ruleSet.key ruleSet.version) = .ok ruleSet.definition :=
      load_eq_ok.mpr ⟨hdump, StoredAux.modelValidate_modelDump py ruleSet.definition, hrun⟩
    unfold deserialise serialise
    simp only [ne_eq, not_true_eq_false, if_false]
    rw [hload]
    rfl

end CacheEntryAux

open CacheEntryAux

/-- A rule set that was loaded from a row is read back from its Redis entry, as it is, just if the row stores every whole-number field
as a whole number. -/
theorem cached_readsBack_iff (sha : Sha256) (py : Interpreter) {record : RuleSetVersionRecord} {raw : Json} {ruleSet : RuleSet}
    (hraw : record.definition.toJson = some raw) (hd : DistinctKeys raw) (h : ruleSetFromRecord sha py record = .ok ruleSet) :
    deserialise sha py (serialise ruleSet) = .ok (some ruleSet) ↔ WholeNumbers raw := by
  obtain ⟨hload, -, -, hhash⟩ := TraceAux.ruleSetFromRecord_ok hraw h
  rw [← hhash] at hload
  rw [readsBack_iff hload]
  exact sortKeys_definition_iff hd (TamperingAux.load_eq_ok.mp hload).2.1

namespace CacheEntryExample

open RoundTripExample

/-- An interpreter whose whole-number fields also take floats without a fractional part. -/
def lax : Interpreter where
  laxInt
    | .int n => .ok n
    | .float (.finite f) =>
      if 0 ≤ f.exp then .ok ((if f.neg then -(f.digits : ℤ) else f.digits) * 10 ^ f.exp.toNat)
      else .error "Input should be a valid integer, got a number with a fractional part"
    | _ => .error "Input should be a valid integer"
  laxInt_int := fun _ => rfl
  repr := fun _ => ""

theorem forty_canonical : (4 = 0 ∧ (1 : ℤ) = 0) ∨ 4 % 10 ≠ 0 := by decide

theorem forty_short : 4 < 10 ^ 17 := by decide

/-- `40.0`. -/
def forty : Json := .float (.finite ⟨false, 4, 1, forty_canonical, forty_short⟩)

/-- The rule set `amount > 10000` as a column holds it, with some score. -/
def stored (score : Json) : Json := .obj [
  ("rules", .arr [.obj [("code", .str "LARGE_AMOUNT"), ("score", score), ("condition", .obj (amountAbove (.int 10000))),
    ("description", .str "Very large.")]]),
  ("reject_threshold", .int 75), ("review_threshold", .int 30), ("velocity_window_seconds", .int 60)]

/-- A row of it, with its hash. -/
def record (score : Json) (definition : Jsonb) : RuleSetVersionRecord :=
  ⟨"fraud-default", 1, definition, definitionJsonHash digest (stored score), "", "analyst", 0⟩

/-- What the row loads as. -/
def loaded (score : Json) : RuleSet := ⟨"fraud-default", 1, whole, definitionJsonHash digest (stored score), "", "analyst", 0⟩

theorem whole_stored : ∃ definition, Jsonb.ofJson (stored (.int 40)) = some definition ∧
    definition.toJson = some (stored (.int 40)) := ⟨_, rfl, rfl⟩

theorem forty_stored : ∃ definition, Jsonb.ofJson (stored forty) = some definition ∧ definition.toJson = some (stored forty) :=
  ⟨_, rfl, rfl⟩

/-- Either row loads as the same rule set. -/
theorem loads_of_validate {score : Json} (hv : modelValidate lax (stored score) = .ok whole) {definition : Jsonb}
    (hraw : definition.toJson = some (stored score)) :
    ruleSetFromRecord digest lax (record score definition) = .ok (loaded score) := by
  have hload : loadStoredDefinition digest lax (stored score) (definitionJsonHash digest (stored score))
      (ruleSetLabel "fraud-default" 1) = .ok whole := TamperingAux.load_eq_ok.mpr ⟨rfl, hv, _, rfl⟩
  unfold ruleSetFromRecord record
  simp only [hraw, hload]
  rfl

theorem whole_valid : modelValidate lax (stored (.int 40)) = .ok whole := rfl

theorem forty_valid : modelValidate lax (stored forty) = .ok whole := rfl

theorem stored_distinct (score : Json) (h : DistinctKeys score) : DistinctKeys (stored score) := by
  simp [stored, amountAbove, DistinctKeys, DistinctKeysItems, DistinctKeysEntries, h]

end CacheEntryExample

open CacheEntryExample RoundTripExample in
/-- The rule set `amount > 10000` with the score 40. -/
theorem cached_readsBack_iff_whole :
    deserialise digest lax (serialise (loaded (.int 40))) = .ok (some (loaded (.int 40))) := by
  obtain ⟨definition, -, hraw⟩ := whole_stored
  refine (cached_readsBack_iff digest lax hraw (stored_distinct (.int 40) trivial) (loads_of_validate whole_valid hraw)).mpr ?_
  refine ⟨_, _, rfl, ⟨60, rfl⟩, ⟨30, rfl⟩, ⟨75, rfl⟩, rfl, fun rule hrule => ?_⟩
  rw [List.mem_singleton.mp hrule]
  exact ⟨_, rfl, 40, rfl⟩

open CacheEntryExample RoundTripExample in
/-- A row with the score `40.0` is accepted, and its Redis entry is refused. -/
theorem cached_readsBack_false : ¬∀ (sha : Sha256) (py : Interpreter) (record : RuleSetVersionRecord) (raw : Json) (ruleSet : RuleSet),
    record.definition.toJson = some raw → DistinctKeys raw → ruleSetFromRecord sha py record = .ok ruleSet →
      deserialise sha py (serialise ruleSet) = .ok (some ruleSet) := by
  intro hall
  obtain ⟨definition, -, hraw⟩ := forty_stored
  have hback := hall digest lax (record forty definition) (stored forty) (loaded forty) hraw (stored_distinct forty trivial)
    (loads_of_validate forty_valid hraw)
  have hsame := (@readsBack_iff digest lax (loaded forty) (stored forty) (ruleSetLabel "fraud-default" 1)
    (TamperingAux.load_eq_ok.mpr ⟨rfl, forty_valid, _, rfl⟩)).mp hback
  obtain ⟨entries, items, hentries, -, -, -, hrules, hwhole⟩ :=
    (sortKeys_definition_iff (stored_distinct forty trivial) forty_valid).mp hsame
  cases hentries
  cases hrules
  obtain ⟨fields, hfields, n, hn⟩ := hwhole _ (List.mem_singleton_self _)
  cases hfields
  cases hn

end FraudDetection
