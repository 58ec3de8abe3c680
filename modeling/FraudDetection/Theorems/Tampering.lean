import FraudDetection.Theorems.RoundTrip
import FraudDetection.Lib.JsonOrder

/-!
# Edits of a stored definition

The content hash is the digest of a canonical text, in which the order of object keys is the only thing of a value that is lost.
Here: a stored definition that was changed in anything else is refused when it is loaded, and one whose keys were reordered is
read as the same definition.
-/

namespace FraudDetection

open Json

/-- A whole-number field reads no list and no object. -/
def Interpreter.RefusesContainers (py : Interpreter) : Prop :=
  (∀ items, ∃ message, py.laxInt (.arr items) = .error message) ∧
    ∀ entries, ∃ message, py.laxInt (.obj entries) = .error message

namespace TamperingAux

/-- What a check accepts, it accepts in any order of keys, and as the same. -/
def Stable {α : Type} (check : Json → Checked α) : Prop :=
  ∀ {v w : Json} {a : α}, DistinctKeys v → DistinctKeys w → sortKeys v = sortKeys w → check v = .ok a → check w = .ok a

/-! ## Checks that read the whole value -/

/-- Outside lists and objects, equal up to order is equal. -/
theorem atom_eq {v w : Json} (h : sortKeys v = sortKeys w) (harr : ∀ items, v ≠ .arr items) (hobj : ∀ entries, v ≠ .obj entries) :
    v = w := by
  cases v with
  | arr items => exact absurd rfl (harr items)
  | obj entries => exact absurd rfl (hobj entries)
  | _ => cases w <;> simp_all [sortKeys]

theorem checkInt_stable {py : Interpreter} (hpy : py.RefusesContainers) (ge : ℕ) (le : Option ℕ) : Stable (checkInt py ge le) := by
  intro v w a _ _ h hv
  have hvw : v = w := by
    refine atom_eq h ?_ ?_
    · rintro items rfl
      obtain ⟨message, hm⟩ := hpy.1 items
      rw [checkInt, hm] at hv
      cases hv
    · rintro entries rfl
      obtain ⟨message, hm⟩ := hpy.2 entries
      rw [checkInt, hm] at hv
      cases hv
  exact hvw ▸ hv

theorem checkDescription_stable : Stable checkDescription := by
  intro v w a _ _ h hv
  cases v with
  | str s => exact atom_eq h (by simp) (by simp) ▸ hv
  | _ => cases hv

theorem checkCode_stable : Stable checkCode := by
  intro v w a _ _ h hv
  cases v with
  | str s => exact atom_eq h (by simp) (by simp) ▸ hv
  | _ => cases hv

/-- An accepted condition has one key in every object, so there is no other order of its keys. -/
theorem checkCondition_stable (py : Interpreter) : Stable (checkCondition py) := by
  intro v w a _ _ h hv
  cases v with
  | obj c =>
    have hc : validateExpression (.obj c) "condition" = .ok () := by
      unfold checkCondition at hv
      simp only at hv
      split at hv
      · assumption
      · cases hv
    obtain ⟨p, hvisit, -⟩ := Except.bind_eq_ok.mp hc
    exact eq_of_single (StoredAux.wellFormed_of_visit hvisit).1 h ▸ hv
  | _ => cases hv

/-! ## Checks of fields -/

/-- A field is read by its key. -/
theorem checkField_congr {α : Type} {check : Json → Checked α} (hcheck : Stable check) {xs ys : List (String × Json)}
    (hx : DistinctKeys (.obj xs)) (hy : DistinctKeys (.obj ys)) {name : String} {a : α}
    (hl : (lookup xs name).map sortKeys = (lookup ys name).map sortKeys) (h : checkField xs name check = .ok a) :
    checkField ys name check = .ok a := by
  unfold checkField at h ⊢
  cases hv : lookup xs name with
  | none =>
    rw [hv] at h
    cases h
  | some v =>
    rw [hv, Option.map_some] at hl
    obtain ⟨w, hw, hvw⟩ := Option.map_eq_some_iff.mp hl.symm
    rw [hv, Checked.at_eq_ok] at h
    rw [hw, Checked.at_eq_ok]
    exact hcheck (distinctKeys_of_mem hx.2 (mem_of_lookup hv)) (distinctKeys_of_mem hy.2 (mem_of_lookup hw)) hvw.symm h

theorem checkExtra_eq_ok {entries : List (String × Json)} {fields : List String} {u : Unit} :
    checkExtra entries fields = .ok u ↔ ∀ key ∈ entries.map (·.1), key ∈ fields := by
  have hiff : (∀ key ∈ entries.map (·.1), key ∈ fields) ↔ entries.filter (fun e => e.1 ∉ fields) = [] := by
    rw [List.filter_eq_nil_iff]
    simp
  rw [hiff]
  unfold checkExtra
  cases entries.filter (fun e => e.1 ∉ fields) <;> simp

theorem checkExtra_congr {xs ys : List (String × Json)} (hk : (xs.map (·.1)).Perm (ys.map (·.1))) {fields : List String} {u : Unit}
    (h : checkExtra xs fields = .ok u) : checkExtra ys fields = .ok u := by
  rw [checkExtra_eq_ok] at h ⊢
  exact fun key hm => h key (hk.mem_iff.mpr hm)

/-! ## Rules -/

theorem checkRule_stable {py : Interpreter} (hpy : py.RefusesContainers) : Stable (checkRule py) := by
  intro v w rule hv hw h hr
  cases v with
  | obj xs =>
    obtain ⟨ys, rfl, hkeys, hlookup⟩ := lookup_congr hv hw h
    unfold checkRule at hr ⊢
    obtain ⟨fields, hfields, hr⟩ := Except.bind_eq_ok.mp hr
    rw [Checked.both_eq_ok, Checked.both_eq_ok, Checked.both_eq_ok, Checked.both_eq_ok] at hfields
    obtain ⟨⟨⟨⟨hcode, hdescription⟩, hscore⟩, hcondition⟩, hextra⟩ := hfields
    refine Except.bind_eq_ok.mpr ⟨fields, ?_, hr⟩
    rw [Checked.both_eq_ok, Checked.both_eq_ok, Checked.both_eq_ok, Checked.both_eq_ok]
    exact ⟨⟨⟨⟨checkField_congr checkCode_stable hv hw (hlookup _) hcode,
      checkField_congr checkDescription_stable hv hw (hlookup _) hdescription⟩,
      checkField_congr (checkInt_stable hpy _ _) hv hw (hlookup _) hscore⟩,
      checkField_congr (checkCondition_stable py) hv hw (hlookup _) hcondition⟩, checkExtra_congr hkeys hextra⟩
  | _ => cases hr

/-- A check whose refusals say why. -/
def Explains {α : Type} (r : Checked α) : Prop := r ≠ .error []

theorem explains_fail {α : Type} (message : String) : Explains (Checked.fail message : Checked α) := by
  simp [Explains, Checked.fail]

theorem explains_at {α : Type} {part : String} {r : Checked α} (h : Explains r) : Explains (r.at part) := by
  cases r <;> simp_all [Explains, Checked.at]

theorem explains_both {α β : Type} {r : Checked α} {r' : Checked β} (h : Explains r) (h' : Explains r') : Explains (r.both r') := by
  cases r <;> cases r' <;> simp_all [Explains, Checked.both]

theorem explains_checkField {α : Type} {check : Json → Checked α} (h : ∀ v, Explains (check v)) (entries : List (String × Json))
    (name : String) : Explains (checkField entries name check) := by
  unfold checkField
  cases lookup entries name with
  | none => exact explains_at (explains_fail _)
  | some v => exact explains_at (h v)

theorem explains_checkInt (py : Interpreter) (ge : ℕ) (le : Option ℕ) (v : Json) : Explains (checkInt py ge le v) := by
  unfold checkInt
  cases py.laxInt v with
  | error message => exact explains_fail _
  | ok n =>
    simp only
    split
    · split
      · simp [Explains]
      · exact explains_fail _
    · exact explains_fail _

theorem explains_checkCode (v : Json) : Explains (checkCode v) := by
  cases v with
  | str s =>
    unfold checkCode
    simp only
    split
    · simp [Explains]
    · exact explains_fail _
  | _ => exact explains_fail _

theorem explains_checkDescription (v : Json) : Explains (checkDescription v) := by
  cases v with
  | str s =>
    unfold checkDescription
    simp only
    split
    · split
      · simp [Explains]
      · exact explains_fail _
    · exact explains_fail _
  | _ => exact explains_fail _

theorem explains_checkCondition (py : Interpreter) (v : Json) : Explains (checkCondition py v) := by
  cases v with
  | obj c =>
    unfold checkCondition
    simp only
    split
    · simp [Explains]
    · exact explains_fail _
  | _ => exact explains_fail _

theorem explains_checkExtra (entries : List (String × Json)) (fields : List String) : Explains (checkExtra entries fields) := by
  unfold checkExtra
  cases entries.filter (fun e => e.1 ∉ fields) <;> simp [Explains]

theorem explains_bind {α β : Type} {r : Checked α} {f : α → Checked β} (h : Explains r) (hf : ∀ a, Explains (f a)) :
    Explains (r >>= f) := by
  cases r with
  | error errors => simpa [Explains] using h
  | ok a => exact hf a

theorem explains_checkRule (py : Interpreter) (v : Json) : Explains (checkRule py v) := by
  cases v with
  | obj entries =>
    refine explains_bind (explains_both (explains_both (explains_both (explains_both
      (explains_checkField explains_checkCode entries "code")
      (explains_checkField explains_checkDescription entries "description"))
      (explains_checkField (explains_checkInt py 0 (some 1000)) entries "score"))
      (explains_checkField (explains_checkCondition py) entries "condition"))
      (explains_checkExtra entries ["code", "description", "score", "condition"])) fun fields => ?_
    simp [Explains]
  | _ => exact explains_fail _

/-- A list of rules is accepted only when each rule is. -/
theorem checkItems_errors {α : Type} {check : Json → Checked α} {maximum given : ℕ} {items : List Json} :
    ∀ {index : ℕ} {valid : List α} {errors : List FieldError} {rs : List α}, errors ≠ [] →
      checkItems check maximum given index items valid errors ≠ .ok rs := by
  induction items with
  | nil =>
    intro index valid errors rs hne h
    cases errors with
    | nil => exact hne rfl
    | cons e errors => cases h
  | cons item items ih =>
    intro index valid errors rs hne h
    rw [checkItems] at h
    split at h
    · split at h
      · cases h
      · exact ih hne h
    · exact ih (by simp [hne]) h

theorem checkItems_congr {α : Type} {check : Json → Checked α} (hcheck : Stable check) (hexplains : ∀ v, Explains (check v))
    {maximum given : ℕ} {xs ys : List Json} (h : List.Forall₂ (fun x y => sortKeys x = sortKeys y) xs ys) :
    ∀ {index : ℕ} {valid rs : List α}, DistinctKeysItems xs → DistinctKeysItems ys →
      checkItems check maximum given index xs valid [] = .ok rs → checkItems check maximum given index ys valid [] = .ok rs := by
  induction h with
  | nil => exact fun _ _ h => h
  | @cons x y xs ys hxy _ ih =>
    intro index valid rs hx hy h
    rw [checkItems] at h ⊢
    cases hr : check x with
    | error errors =>
      rw [hr] at h
      have hne : errors ≠ [] := by
        rintro rfl
        exact hexplains x hr
      exact absurd h (checkItems_errors (by simp [hne]))
    | ok a =>
      rw [hr] at h
      rw [hcheck hx.1 hy.1 hxy hr]
      simp only [Checked.at] at h ⊢
      split at h
      · cases h
      · rw [if_neg (by assumption)]
        exact ih hx.2 hy.2 h

theorem checkRules_stable {py : Interpreter} (hpy : py.RefusesContainers) : Stable (checkRules py) := by
  intro v w rules hv hw h hr
  cases v with
  | arr xs =>
    obtain ⟨ys, rfl, hitems⟩ := items_congr h
    unfold checkRules at hr ⊢
    obtain ⟨rs, hrs, hr⟩ := Except.bind_eq_ok.mp hr
    refine Except.bind_eq_ok.mpr ⟨rs, ?_, hr⟩
    rw [← hitems.length_eq]
    exact checkItems_congr (checkRule_stable hpy) (explains_checkRule py) hitems hv hw hrs
  | _ => cases hr

/-- `RuleSetDefinition.model_validate` reads a definition through its keys. -/
theorem modelValidate_stable {py : Interpreter} (hpy : py.RefusesContainers) : Stable (modelValidate py) := by
  intro v w d hv hw h hr
  cases v with
  | obj xs =>
    obtain ⟨ys, rfl, hkeys, hlookup⟩ := lookup_congr hv hw h
    unfold modelValidate at hr ⊢
    obtain ⟨fields, hfields, hr⟩ := Except.bind_eq_ok.mp hr
    rw [Checked.both_eq_ok, Checked.both_eq_ok, Checked.both_eq_ok, Checked.both_eq_ok] at hfields
    obtain ⟨⟨⟨⟨hwindow, hreview⟩, hreject⟩, hrules⟩, hextra⟩ := hfields
    refine Except.bind_eq_ok.mpr ⟨fields, ?_, hr⟩
    rw [Checked.both_eq_ok, Checked.both_eq_ok, Checked.both_eq_ok, Checked.both_eq_ok]
    exact ⟨⟨⟨⟨checkField_congr (checkInt_stable hpy _ _) hv hw (hlookup _) hwindow,
      checkField_congr (checkInt_stable hpy _ _) hv hw (hlookup _) hreview⟩,
      checkField_congr (checkInt_stable hpy _ _) hv hw (hlookup _) hreject⟩,
      checkField_congr (checkRules_stable hpy) hv hw (hlookup _) hrules⟩, checkExtra_congr hkeys hextra⟩
  | _ => cases hr

/-- What `load_stored_definition` accepts: a definition that matches its hash, validates and passes the dry run. -/
theorem load_eq_ok {sha : Sha256} {py : Interpreter} {raw : Json} {hash label : String} {d : RuleSetDefinition} :
    loadStoredDefinition sha py raw hash label = .ok d ↔
      definitionJsonHash sha raw = hash ∧ modelValidate py raw = .ok d ∧ ∃ a, evaluateRuleSet d dryRunContext = .ok a := by
  unfold loadStoredDefinition
  by_cases hh : definitionJsonHash sha raw = hash
  · rw [if_neg (not_not.mpr hh)]
    cases hv : modelValidate py raw with
    | error errors => simp
    | ok d' =>
      simp only [Except.ok.injEq, hh, true_and]
      constructor
      · intro h
        split at h
        · cases h
          exact ⟨rfl, _, by assumption⟩
        · cases h
        · cases h
        · cases h
      · rintro ⟨rfl, a, ha⟩
        rw [ha]
  · rw [if_pos hh]
    simp [hh]

end TamperingAux

open TamperingAux

/-- In-place edits are detected. A value that differs from the stored definition in anything but the order of object keys is
refused as changed; one that differs in nothing else is accepted exactly when the stored definition is, as the same definition. -/
theorem stored_edit_detected (sha : Sha256) {py : Interpreter} (hpy : py.RefusesContainers) {stored edited : Json}
    (hs : DistinctKeys stored) (he : DistinctKeys edited) (label : String) :
    (¬Same stored edited →
      loadStoredDefinition sha py edited (definitionJsonHash sha stored) label = .error (.changed label)) ∧
    (Same stored edited → ∀ d,
      loadStoredDefinition sha py edited (definitionJsonHash sha stored) label = .ok d ↔
        loadStoredDefinition sha py stored (definitionJsonHash sha stored) label = .ok d) := by
  have hhash : definitionJsonHash sha edited = definitionJsonHash sha stored ↔ Same stored edited := by
    unfold definitionJsonHash
    rw [sha.injective.eq_iff, canonical_eq_iff, eq_comm, sortKeys_eq_iff hs he]
  constructor
  · intro h
    unfold loadStoredDefinition
    rw [if_pos fun heq => h (hhash.mp heq)]
  · intro h d
    have hsort := (sortKeys_eq_iff hs he).mpr h
    rw [load_eq_ok, load_eq_ok, hhash]
    constructor
    · rintro ⟨-, hv, hrun⟩
      exact ⟨rfl, modelValidate_stable hpy he hs hsort.symm hv, hrun⟩
    · rintro ⟨-, hv, hrun⟩
      exact ⟨h, modelValidate_stable hpy hs he hsort hv, hrun⟩

namespace TamperingExample

open RoundTripExample

theorem refuses : interpreter.RefusesContainers :=
  ⟨fun _ => ⟨"Input should be a valid integer", rfl⟩, fun _ => ⟨"Input should be a valid integer", rfl⟩⟩

/-- The rule set `amount > 10000`, its keys in another order. -/
def reordered : Json := .obj [
  ("rules", .arr [.obj [("condition", .obj (amountAbove (.int 10000))), ("score", .int 40),
    ("code", .str "LARGE_AMOUNT"), ("description", .str "Very large.")]]),
  ("reject_threshold", .int 75), ("review_threshold", .int 30), ("velocity_window_seconds", .int 60)]

theorem distinct (literal : ℤ) : DistinctKeys (body (.int literal)) := by
  simp [body, amountAbove, DistinctKeys, DistinctKeysItems, DistinctKeysEntries]

theorem reordered_distinct : DistinctKeys reordered := by
  simp [reordered, amountAbove, DistinctKeys, DistinctKeysItems, DistinctKeysEntries]

theorem reordered_same : Same (body (.int 10000)) reordered := by
  rw [← sortKeys_eq_iff (distinct 10000) reordered_distinct]
  simp [body, reordered, amountAbove, sortKeys, sortItems, sortEntries]

theorem raised_differs : ¬Same (body (.int 10000)) (body (.int 20000)) := by
  rw [← sortKeys_eq_iff (distinct 10000) (distinct 20000)]
  simp [body, amountAbove, sortKeys, sortItems, sortEntries]

end TamperingExample

open RoundTripExample TamperingExample in
/-- Raising the threshold of `amount > 10000` in place is detected; reordering the keys of its JSON is not an edit. -/
theorem stored_edit_detected_raised :
    loadStoredDefinition digest interpreter (body (.int 20000)) (definitionJsonHash digest (body (.int 10000)))
        "fraud-default@v2" = .error (.changed "fraud-default@v2") ∧
      loadStoredDefinition digest interpreter reordered (definitionJsonHash digest (body (.int 10000)))
        "fraud-default@v2" = .ok whole := by
  obtain ⟨hraised, -⟩ := stored_edit_detected digest refuses (distinct 10000) (distinct 20000) "fraud-default@v2"
  obtain ⟨-, hreordered⟩ := stored_edit_detected digest refuses (distinct 10000) reordered_distinct "fraud-default@v2"
  exact ⟨hraised raised_differs, (hreordered reordered_same whole).mpr (load_eq_ok.mpr ⟨rfl, rfl, _, rfl⟩)⟩

end FraudDetection
