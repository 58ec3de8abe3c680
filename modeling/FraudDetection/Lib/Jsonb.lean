import FraudDetection.Lib.JsonText

/-!
# JSON values in a `jsonb` column

What PostgreSQL keeps of a JSON text and gives back: a number becomes an exact decimal with its number of fraction digits, printed
without an exponent and without a sign on zero; the keys of an object are put in an order of its own, by length and then by
bytes; a text with U+0000 or half of a surrogate pair in a string is refused, and so are the `NaN` and `Infinity` that Python
writes for floats that are not finite. Python then reads a number without a point as an `int`.
-/

/-- An exact decimal: `± coeff / 10 ^ scale`. Zero has no sign. -/
structure Numeric where
  neg : Bool
  coeff : ℕ
  scale : ℕ
  unsigned_zero : coeff = 0 → neg = false
  deriving DecidableEq, Repr

namespace Numeric

/-- A written number as an exact decimal, its exponent expanded. -/
def ofToken (t : NumberToken) : Numeric :=
  let c := t.coeff * 10 ^ t.power.toNat
  ⟨t.neg && decide (c ≠ 0), c, (-t.power).toNat, by intro h; simp [c, h]⟩

/-- How a decimal is printed. -/
def print (n : Numeric) : NumberToken :=
  ⟨n.neg, n.coeff / 10 ^ n.scale, n.scale, n.coeff % 10 ^ n.scale, none, Nat.mod_lt _ (Nat.pow_pos (Nat.succ_pos 9))⟩

end Numeric

/-- A value in a `jsonb` column. -/
inductive Jsonb where
  | null
  | bool (value : Bool)
  | num (value : Numeric)
  | str (value : String)
  | arr (items : List Jsonb)
  | obj (entries : List (String × Jsonb))
  deriving Repr

namespace Jsonb

/-- The order of the keys of an object: shorter ones first, then by their bytes. -/
def keyLE (a b : String × Jsonb) : Prop :=
  a.1.utf8ByteSize < b.1.utf8ByteSize ∨ (a.1.utf8ByteSize = b.1.utf8ByteSize ∧ a.1 ≤ b.1)

instance (a b : String × Jsonb) : Decidable (keyLE a b) := inferInstanceAs (Decidable (_ ∨ _))

/-- Whether a text can be stored: it has no U+0000. -/
def storable (s : String) : Bool := decide ('\x00' ∉ s.toList)

mutual

/-- What is stored of the text `json.dumps` writes; `none` when PostgreSQL refuses it. -/
def ofJson : Json → Option Jsonb
  | .null => some .null
  | .bool b => some (.bool b)
  | .int n => some (.num (.ofToken (intToken n)))
  | .float (.finite f) => some (.num (.ofToken f.token))
  | .float _ => none
  | .str s => if storable s then some (.str s) else none
  | .lone _ => none
  | .arr items => (ofItems items).map .arr
  | .obj entries => (ofEntries entries).map fun entries => .obj (entries.insertionSort keyLE)

def ofItems : List Json → Option (List Jsonb)
  | [] => some []
  | item :: items => do
    let b ← ofJson item
    let bs ← ofItems items
    return b :: bs

def ofEntries : List (String × Json) → Option (List (String × Jsonb))
  | [] => some []
  | (key, item) :: entries =>
    if storable key then do
      let b ← ofJson item
      let bs ← ofEntries entries
      return (key, b) :: bs
    else none

end

mutual

/-- What `json.loads` reads of a stored value; `none` when a number is not the `repr` of a float. -/
def toJson : Jsonb → Option Json
  | .null => some .null
  | .bool b => some (.bool b)
  | .num n => n.print.loads
  | .str s => some (.str s)
  | .arr items => (toItems items).map .arr
  | .obj entries => (toEntries entries).map .obj

def toItems : List Jsonb → Option (List Json)
  | [] => some []
  | item :: items => do
    let j ← toJson item
    let js ← toItems items
    return j :: js

def toEntries : List (String × Jsonb) → Option (List (String × Json))
  | [] => some []
  | (key, item) :: entries => do
    let j ← toJson item
    let js ← toEntries entries
    return (key, j) :: js

end

end Jsonb

/-! ## Numbers -/

/-- A float that keeps its value and its type: not `-0.0`, and below `1e16` in magnitude. -/
def FloatRepr.Plain (f : FloatRepr) : Prop := ¬(f.neg = true ∧ f.digits = 0) ∧ (f.digits : ℚ) * (10 : ℚ) ^ f.exp < 10 ^ 16

/-- The point of a written float, counted from its first digit. -/
def FloatRepr.point (f : FloatRepr) : ℤ := (Nat.toDigits 10 f.digits).length + f.exp

namespace FloatRepr

/-- A float is below `1e16` when its point is at most 16 digits from its first one. -/
theorem lt_iff_point (f : FloatRepr) : (f.digits : ℚ) * (10 : ℚ) ^ f.exp < 10 ^ 16 ↔ f.point ≤ 16 := by
  have hpos : 0 < (Nat.toDigits 10 f.digits).length := Nat.length_toDigits_pos
  have hten : (0 : ℚ) < 10 := by norm_num
  rcases f.canonical with ⟨hd, he⟩ | hd
  · simp [point, hd, he]
  have hne : f.digits ≠ 0 := by
    intro h0
    rw [h0] at hd
    exact hd rfl
  -- the digits lie between two powers of ten, given by how many there are
  have hhi : f.digits < 10 ^ (Nat.toDigits 10 f.digits).length :=
    (Nat.length_toDigits_le_iff (by omega) hpos).mp le_rfl
  have hlo : 10 ^ ((Nat.toDigits 10 f.digits).length - 1) ≤ f.digits := by
    by_contra hlt
    rcases Nat.eq_zero_or_pos ((Nat.toDigits 10 f.digits).length - 1) with h0 | h0
    · rw [h0, pow_zero] at hlt
      omega
    · have := (Nat.length_toDigits_le_iff (b := 10) (by omega) h0).mpr (Nat.lt_of_not_le hlt)
      omega
  have hhi' : (f.digits : ℚ) < (10 : ℚ) ^ ((Nat.toDigits 10 f.digits).length : ℤ) := by
    rw [zpow_natCast]
    exact_mod_cast hhi
  have hlo' : (10 : ℚ) ^ (((Nat.toDigits 10 f.digits).length : ℤ) - 1) ≤ f.digits := by
    have : (((Nat.toDigits 10 f.digits).length : ℤ) - 1) = (((Nat.toDigits 10 f.digits).length - 1 : ℕ) : ℤ) := by omega
    rw [this, zpow_natCast]
    exact_mod_cast hlo
  unfold point
  constructor
  · intro h
    by_contra hlt
    have h1 : (10 : ℚ) ^ (16 : ℤ) ≤ (10 : ℚ) ^ (((Nat.toDigits 10 f.digits).length : ℤ) - 1 + f.exp) :=
      zpow_le_zpow_right₀ (by norm_num) (by omega)
    rw [zpow_add₀ hten.ne'] at h1
    have h2 := mul_le_mul_of_nonneg_right hlo' (zpow_pos hten f.exp).le
    have h3 : (10 : ℚ) ^ (16 : ℤ) = 10 ^ 16 := by norm_num
    linarith
  · intro h
    have h1 := mul_lt_mul_of_pos_right hhi' (zpow_pos hten f.exp)
    rw [← zpow_add₀ hten.ne'] at h1
    have h2 : (10 : ℚ) ^ (((Nat.toDigits 10 f.digits).length : ℤ) + f.exp) ≤ (10 : ℚ) ^ (16 : ℤ) :=
      zpow_le_zpow_right₀ (by norm_num) h
    have h3 : (10 : ℚ) ^ (16 : ℤ) = 10 ^ 16 := by norm_num
    linarith

/-- A float's text has a fraction of its own, counting its exponent, exactly when it is below `1e16`. -/
theorem power_neg_iff (f : FloatRepr) : f.token.power < 0 ↔ f.point ≤ 16 := by
  have hpos : 0 < (Nat.toDigits 10 f.digits).length := Nat.length_toDigits_pos
  have hle : (Nat.toDigits 10 f.digits).length ≤ 17 := (Nat.length_toDigits_le_iff (by omega) (by omega)).mpr f.short
  unfold point token
  simp only
  split
  · split
    · simp only [NumberToken.power, Option.getD_none]
      omega
    · simp only [NumberToken.power, Option.getD_none]
      omega
  · simp only [NumberToken.power, Option.getD_some]
    omega

end FloatRepr

namespace Numeric

/-- A decimal with a fraction is read back as a float, from the same digits at the same power of ten. -/
theorem loads_of_neg_power {t : NumberToken} (h : t.power < 0) :
    (ofToken t).print.loads =
      (FloatRepr.ofDecimal (t.neg && decide (t.coeff ≠ 0)) t.coeff t.power).map fun f => .float (.finite f) := by
  have hscale : (-t.power).toNat ≠ 0 := by omega
  have hcoeff : (ofToken t).print.coeff = t.coeff := by
    simp only [print, ofToken, NumberToken.coeff]
    rw [Nat.div_add_mod', Int.toNat_of_nonpos h.le, pow_zero, mul_one]
  have hpower : (ofToken t).print.power = t.power := by
    simp only [print, ofToken, NumberToken.power, Option.getD_none]
    unfold NumberToken.power at h
    omega
  unfold NumberToken.loads
  rw [if_neg (fun hp => hscale hp.1), hcoeff, hpower]
  simp only [print, ofToken, Int.toNat_of_nonpos h.le, pow_zero, mul_one]

/-- A decimal without a fraction is read back as a whole number. -/
theorem loads_of_nonneg_power {t : NumberToken} (h : 0 ≤ t.power) :
    (ofToken t).print.loads =
      some (.int (if t.neg then -(t.coeff * 10 ^ t.power.toNat : ℕ) else (t.coeff * 10 ^ t.power.toNat : ℕ))) := by
  have hscale : (-t.power).toNat = 0 := by omega
  have hp : (ofToken t).print.places = 0 ∧ (ofToken t).print.exponent = none := ⟨hscale, rfl⟩
  unfold NumberToken.loads
  rw [if_pos hp]
  simp only [print, ofToken, hscale, pow_zero, Nat.div_one]
  cases t.neg with
  | false => rfl
  | true =>
    by_cases hz : t.coeff * 10 ^ t.power.toNat = 0
    · simp [hz]
    · simp [hz]

/-- Whole numbers are kept. -/
theorem loads_int (n : ℤ) : (ofToken (intToken n)).print.loads = some (.int n) := by
  rw [loads_of_nonneg_power (by simp [NumberToken.power, intToken])]
  simp only [intToken, NumberToken.power, NumberToken.coeff, Option.getD_none, Nat.cast_zero, sub_zero, Int.toNat_zero,
    pow_zero, mul_one, add_zero, Option.some.injEq, Json.int.injEq, decide_eq_true_eq]
  split <;> omega

/-- What becomes of a float: it is kept, loses the sign of its zero, or turns into a whole number. -/
theorem loads_float (f : FloatRepr) :
    (∃ j, (ofToken f.token).print.loads = some j ∧ (j = .float (.finite f) ↔ f.Plain)) := by
  obtain ⟨hneg, k, hc, hp⟩ := f.token_value
  unfold FloatRepr.Plain
  rw [f.lt_iff_point, ← f.power_neg_iff]
  rcases lt_or_ge f.token.power 0 with hpow | hpow
  · rw [loads_of_neg_power hpow, hneg, hc, hp]
    by_cases hz : f.neg = true ∧ f.digits = 0
    · have h0 : f.exp = 0 := by
        rcases f.canonical with ⟨-, he⟩ | hd
        · exact he
        · rw [hz.2] at hd
          exact absurd rfl hd
      have hzero : FloatRepr.ofDecimal false 0 (f.exp - k) = some ⟨false, 0, 0, by simp, by simp⟩ := by
        simp [FloatRepr.ofDecimal]
      refine ⟨.float (.finite ⟨false, 0, 0, by simp, by simp⟩), by simp [hz.1, hz.2, hzero], ?_⟩
      simp only [hz, and_self, not_true_eq_false, false_and, iff_false]
      intro h
      have : f.neg = false := by
        have := PyFloat.finite.inj (Json.float.inj h)
        rw [← this]
      rw [hz.1] at this
      cases this
    · have hsign : (f.neg && decide (f.digits * 10 ^ k ≠ 0)) = f.neg := by
        cases hn : f.neg with
        | false => rfl
        | true =>
          have hd : f.digits ≠ 0 := fun h0 => hz ⟨hn, h0⟩
          simp [hd]
      rw [hsign, f.ofDecimal_repr k]
      refine ⟨.float (.finite f), rfl, ?_⟩
      rw [hp] at hpow
      simp [hz, hpow]
  · rw [loads_of_nonneg_power hpow]
    refine ⟨_, rfl, ?_⟩
    simp only [reduceCtorEq, false_iff, not_and]
    intro _ hlt
    omega

end Numeric

/-! ## Values whose objects have one key each -/

namespace Json

mutual

/-- The strings, keys and other values without parts that a value is made of. -/
def leaves : Json → List Json
  | .arr items => leavesOfItems items
  | .obj entries => leavesOfEntries entries
  | .null => [.null]
  | .bool b => [.bool b]
  | .int n => [.int n]
  | .float f => [.float f]
  | .str s => [.str s]
  | .lone s => [.lone s]

def leavesOfItems : List Json → List Json
  | [] => []
  | item :: items => leaves item ++ leavesOfItems items

def leavesOfEntries : List (String × Json) → List Json
  | [] => []
  | (key, item) :: entries => .str key :: (leaves item ++ leavesOfEntries entries)

end

mutual

/-- Every object in a value has exactly one key. -/
def SingleKeys : Json → Prop
  | .arr items => SingleKeysItems items
  | .obj entries => entries.length = 1 ∧ SingleKeysEntries entries
  | _ => True

def SingleKeysItems : List Json → Prop
  | [] => True
  | item :: items => SingleKeys item ∧ SingleKeysItems items

def SingleKeysEntries : List (String × Json) → Prop
  | [] => True
  | (_, item) :: entries => SingleKeys item ∧ SingleKeysEntries entries

end

/-- The floats among some leaves all keep their value and their type. -/
def FloatsPlain (leaves : List Json) : Prop := ∀ f, Json.float (.finite f) ∈ leaves → f.Plain

/-- Whether a leaf can be stored: a text without U+0000, a finite float, or another value that is no string. -/
def storableLeaf : Json → Bool
  | .str s => Jsonb.storable s
  | .lone _ => false
  | .float f => f.isFinite
  | _ => true

theorem floatsPlain_append {xs ys : List Json} : FloatsPlain (xs ++ ys) ↔ FloatsPlain xs ∧ FloatsPlain ys := by
  simp only [FloatsPlain, List.mem_append]
  constructor
  · intro h
    exact ⟨fun f hf => h f (Or.inl hf), fun f hf => h f (Or.inr hf)⟩
  · rintro ⟨hx, hy⟩ f (hf | hf)
    · exact hx f hf
    · exact hy f hf

mutual

/-- Where every object has one key, there is nothing to put in order. -/
theorem sortKeys_of_single : ∀ j : Json, SingleKeys j → sortKeys j = j
  | .null, _ => rfl
  | .bool _, _ => rfl
  | .int _, _ => rfl
  | .float _, _ => rfl
  | .str _, _ => rfl
  | .lone _, _ => rfl
  | .arr items, h => by
    rw [sortKeys, sortItems_of_single items h]
  | .obj entries, h => by
    rw [sortKeys, sortEntries_of_single entries h.2]
    match entries, h.1 with
    | [entry], _ => rfl

theorem sortItems_of_single : ∀ items : List Json, SingleKeysItems items → sortItems items = items
  | [], _ => rfl
  | item :: items, h => by
    rw [sortItems, sortKeys_of_single item h.1, sortItems_of_single items h.2]

theorem sortEntries_of_single : ∀ entries : List (String × Json), SingleKeysEntries entries → sortEntries entries = entries
  | [], _ => rfl
  | (key, item) :: entries, h => by
    rw [sortEntries, sortKeys_of_single item h.1, sortEntries_of_single entries h.2]

end

end Json

namespace Jsonb

open Json

mutual

/-- PostgreSQL stores a value exactly when it can store every leaf of it. -/
theorem ofJson_isSome : ∀ j : Json, (ofJson j).isSome = true ↔ ∀ leaf ∈ leaves j, storableLeaf leaf = true
  | .null => by simp [ofJson, leaves, storableLeaf]
  | .bool _ => by simp [ofJson, leaves, storableLeaf]
  | .int _ => by simp [ofJson, leaves, storableLeaf]
  | .float f => by cases f <;> simp [ofJson, leaves, storableLeaf, PyFloat.isFinite]
  | .str s => by
    simp only [ofJson, leaves, List.mem_singleton, forall_eq, storableLeaf]
    cases storable s <;> simp
  | .lone _ => by simp [ofJson, leaves, storableLeaf]
  | .arr items => by
    simp only [ofJson, leaves, Option.isSome_map]
    exact ofItems_isSome items
  | .obj entries => by
    simp only [ofJson, leaves, Option.isSome_map]
    exact ofEntries_isSome entries

theorem ofItems_isSome : ∀ items : List Json,
    (ofItems items).isSome = true ↔ ∀ leaf ∈ leavesOfItems items, storableLeaf leaf = true
  | [] => by simp [ofItems, leavesOfItems]
  | item :: items => by
    simp only [ofItems, leavesOfItems, List.mem_append, or_imp, forall_and, ← ofJson_isSome item, ← ofItems_isSome items]
    cases ofJson item <;> cases ofItems items <;> simp

theorem ofEntries_isSome : ∀ entries : List (String × Json),
    (ofEntries entries).isSome = true ↔ ∀ leaf ∈ leavesOfEntries entries, storableLeaf leaf = true
  | [] => by simp [ofEntries, leavesOfEntries]
  | (key, item) :: entries => by
    have hkey : storableLeaf (.str key) = storable key := rfl
    simp only [ofEntries, leavesOfEntries, List.mem_cons, List.mem_append, or_imp, forall_and, forall_eq, hkey,
      ← ofJson_isSome item, ← ofEntries_isSome entries]
    cases storable key <;> cases ofJson item <;> cases ofEntries entries <;> simp

end

mutual

/-- What is read back of a stored value: the value itself exactly when its floats are plain. -/
theorem readBack : ∀ (j : Json) {b : Jsonb}, SingleKeys j → ofJson j = some b →
    ∃ j', toJson b = some j' ∧ SingleKeys j' ∧ (j' = j ↔ FloatsPlain (leaves j))
  | .null, b, _, h => by cases h; exact ⟨_, rfl, trivial, by simp [FloatsPlain, leaves]⟩
  | .bool v, b, _, h => by cases h; exact ⟨_, rfl, trivial, by simp [FloatsPlain, leaves]⟩
  | .int n, b, _, h => by
    cases h
    exact ⟨.int n, Numeric.loads_int n, trivial, by simp [FloatsPlain, leaves]⟩
  | .float f, b, _, h => by
    cases f with
    | finite f =>
      cases h
      obtain ⟨j, hj, hplain⟩ := Numeric.loads_float f
      refine ⟨j, hj, ?_, ?_⟩
      · unfold NumberToken.loads at hj
        split at hj
        · cases hj
          trivial
        · obtain ⟨g, -, rfl⟩ := Option.map_eq_some_iff.mp hj
          trivial
      · rw [hplain]
        simp [FloatsPlain, leaves]
    | inf neg => cases h
    | nan => cases h
  | .str s, b, _, h => by
    simp only [ofJson] at h
    split at h
    · cases h
      exact ⟨_, rfl, trivial, by simp [FloatsPlain, leaves]⟩
    · cases h
  | .lone _, b, _, h => by cases h
  | .arr items, b, hs, h => by
    obtain ⟨bs, hbs, rfl⟩ := Option.map_eq_some_iff.mp h
    obtain ⟨js, hjs, hsingle, hiff⟩ := readBackItems items hs hbs
    refine ⟨.arr js, by rw [toJson, hjs]; rfl, hsingle, ?_⟩
    rw [Json.arr.injEq]
    exact hiff
  | .obj entries, b, hs, h => by
    obtain ⟨bs, hbs, rfl⟩ := Option.map_eq_some_iff.mp h
    obtain ⟨js, hjs, hl, hsingle, hiff⟩ := readBackEntries entries hs.2 hbs
    match bs, hl.1.trans hs.1 with
    | [entry], _ =>
      refine ⟨.obj js, ?_, ⟨hl.2.trans hs.1, hsingle⟩, ?_⟩
      · simp only [List.insertionSort_cons, List.insertionSort_nil, List.orderedInsert_nil]
        rw [toJson, hjs]
        rfl
      · rw [Json.obj.injEq]
        exact hiff

theorem readBackItems : ∀ (items : List Json) {bs : List Jsonb}, SingleKeysItems items → ofItems items = some bs →
    ∃ js, toItems bs = some js ∧ SingleKeysItems js ∧ (js = items ↔ FloatsPlain (leavesOfItems items))
  | [], bs, _, h => by cases h; exact ⟨[], rfl, trivial, by simp [FloatsPlain, leavesOfItems]⟩
  | item :: items, bs, hs, h => by
    obtain ⟨b, hb, h⟩ := Option.bind_eq_some_iff.mp h
    obtain ⟨bs', hbs, h⟩ := Option.bind_eq_some_iff.mp h
    cases h
    obtain ⟨j, hj, hsj, hij⟩ := readBack item hs.1 hb
    obtain ⟨js, hjs, hsjs, hijs⟩ := readBackItems items hs.2 hbs
    refine ⟨j :: js, by simp [toItems, hj, hjs], ⟨hsj, hsjs⟩, ?_⟩
    rw [leavesOfItems, floatsPlain_append, List.cons.injEq, hij, hijs]

theorem readBackEntries : ∀ (entries : List (String × Json)) {bs : List (String × Jsonb)}, SingleKeysEntries entries →
    ofEntries entries = some bs → ∃ js, toEntries bs = some js ∧ (bs.length = entries.length ∧ js.length = entries.length) ∧
      SingleKeysEntries js ∧ (js = entries ↔ FloatsPlain (leavesOfEntries entries))
  | [], bs, _, h => by cases h; exact ⟨[], rfl, ⟨rfl, rfl⟩, trivial, by simp [FloatsPlain, leavesOfEntries]⟩
  | (key, item) :: entries, bs, hs, h => by
    simp only [ofEntries] at h
    split at h
    · obtain ⟨b, hb, h⟩ := Option.bind_eq_some_iff.mp h
      obtain ⟨bs', hbs, h⟩ := Option.bind_eq_some_iff.mp h
      cases h
      obtain ⟨j, hj, hsj, hij⟩ := readBack item hs.1 hb
      obtain ⟨js, hjs, hl, hsjs, hijs⟩ := readBackEntries entries hs.2 hbs
      refine ⟨(key, j) :: js, by simp [toEntries, hj, hjs], by simp [hl], ⟨hsj, hsjs⟩, ?_⟩
      have hleaf : FloatsPlain (leavesOfEntries ((key, item) :: entries)) ↔
          FloatsPlain (leaves item) ∧ FloatsPlain (leavesOfEntries entries) := by
        rw [← floatsPlain_append]
        simp [FloatsPlain, leavesOfEntries]
      rw [hleaf, List.cons.injEq, Prod.mk.injEq, hij, hijs]
      simp
    · cases h

end

end Jsonb
