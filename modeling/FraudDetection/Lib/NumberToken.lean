import FraudDetection.Lib.Json
import Mathlib.Tactic.Linarith

/-!
# The numbers of a JSON text

A number is written as a sign, a whole part, a fraction of some number of digits and, perhaps, an exponent of ten. Here: how
Python writes an `int` and, with `repr`, a `float`, and how it reads a number back. Two different numbers are never written in
the same way.
-/

/-- A number as it is written. The whole part has no leading zero; the fraction has `places` digits, and no point when it has
none. -/
structure NumberToken where
  neg : Bool
  whole : ℕ
  places : ℕ
  fraction : ℕ
  exponent : Option ℤ
  fraction_lt : fraction < 10 ^ places
  deriving DecidableEq, Repr

namespace NumberToken

/-- All the digits of a number, as one whole number. -/
def coeff (t : NumberToken) : ℕ := t.whole * 10 ^ t.places + t.fraction

/-- The power of ten its digits stand for. -/
def power (t : NumberToken) : ℤ := t.exponent.getD 0 - t.places

/-- A whole number with at least `width` digits. -/
def padded (width n : ℕ) : List Char :=
  List.replicate (width - (Nat.toDigits 10 n).length) '0' ++ Nat.toDigits 10 n

/-- The point and the fraction. -/
def fractionText (t : NumberToken) : List Char := if t.places = 0 then [] else '.' :: padded t.places t.fraction

/-- The exponent: a sign and at least two digits. -/
def exponentText : Option ℤ → List Char
  | none => []
  | some e => 'e' :: (if e < 0 then '-' else '+') :: padded 2 e.natAbs

/-- The characters of a number. -/
def text (t : NumberToken) : List Char :=
  (if t.neg then ['-'] else []) ++ (Nat.toDigits 10 t.whole ++ (t.fractionText ++ exponentText t.exponent))

end NumberToken

/-- How an `int` is written. -/
def intToken (n : ℤ) : NumberToken := ⟨decide (n < 0), n.natAbs, 0, 0, none, by simp⟩

/-- How `repr` writes a float: positionally when the point falls within 16 digits of the first one or at most four places before
it, and with an exponent otherwise. -/
def FloatRepr.token (f : FloatRepr) : NumberToken :=
  let n := (Nat.toDigits 10 f.digits).length
  let point : ℤ := n + f.exp
  if -4 < point ∧ point ≤ 16 then
    if 0 ≤ f.exp then ⟨f.neg, f.digits * 10 ^ f.exp.toNat, 1, 0, none, by simp⟩
    else
      let k := (-f.exp).toNat
      ⟨f.neg, f.digits / 10 ^ k, k, f.digits % 10 ^ k, none, Nat.mod_lt _ (Nat.pow_pos (by omega))⟩
  else
    ⟨f.neg, f.digits / 10 ^ (n - 1), n - 1, f.digits % 10 ^ (n - 1), some (point - 1), Nat.mod_lt _ (Nat.pow_pos (by omega))⟩

/-- Remove the zeros a number ends in, at most so many of them. -/
def stripZeros : ℕ → ℕ → ℤ → ℕ × ℤ
  | 0, c, e => (c, e)
  | fuel + 1, c, e => if c % 10 = 0 then stripZeros fuel (c / 10) (e + 1) else (c, e)

/-- The float a decimal reads as, when that decimal is what some float's `repr` writes. -/
def FloatRepr.ofDecimal (neg : Bool) (c : ℕ) (e : ℤ) : Option FloatRepr :=
  let (digits, exp) := if c = 0 then (0, 0) else stripZeros (Nat.toDigits 10 c).length c e
  if h : (digits = 0 ∧ exp = 0 ∨ digits % 10 ≠ 0) ∧ digits < 10 ^ 17 then some ⟨neg, digits, exp, h.1, h.2⟩ else none

/-- `json.loads` of a number: an `int` when it has neither a fraction nor an exponent, otherwise a `float`. -/
def NumberToken.loads (t : NumberToken) : Option Json :=
  if t.places = 0 ∧ t.exponent = none then some (.int (if t.neg then -(t.whole : ℤ) else t.whole))
  else (FloatRepr.ofDecimal t.neg t.coeff t.power).map fun f => .float (.finite f)

/-! ## Digits -/

/-- Texts that start with characters of one kind, up to the first that is not, are split in one way only. -/
theorem span_unique {α : Type _} (p : α → Bool) {as as' bs bs' : List α} (ha : ∀ a ∈ as, p a = true)
    (ha' : ∀ a ∈ as', p a = true) (hb : ∀ b ∈ bs.head?, p b = false) (hb' : ∀ b ∈ bs'.head?, p b = false)
    (h : as ++ bs = as' ++ bs') : as = as' ∧ bs = bs' := by
  induction as generalizing as' with
  | nil =>
    cases as' with
    | nil => exact ⟨rfl, h⟩
    | cons a' as' =>
      simp only [List.nil_append, List.cons_append] at h
      subst h
      have h1 := hb a' (by simp)
      rw [ha' a' (by simp)] at h1
      cases h1
  | cons a as ih =>
    cases as' with
    | nil =>
      simp only [List.nil_append, List.cons_append] at h
      subst h
      have h1 := hb' a (by simp)
      rw [ha a (by simp)] at h1
      cases h1
    | cons a' as' =>
      simp only [List.cons_append, List.cons.injEq] at h
      obtain ⟨rfl, h⟩ := h
      obtain ⟨rfl, hbs⟩ := ih (fun b hb => ha b (by simp [hb])) (fun b hb => ha' b (by simp [hb])) h
      exact ⟨rfl, hbs⟩

namespace NumberToken

theorem isDigit_toDigits {n : ℕ} {c : Char} (h : c ∈ Nat.toDigits 10 n) : c.isDigit = true :=
  Nat.isDigit_of_mem_toDigits (by omega) (by omega) h

theorem toDigits_inj {m n : ℕ} (h : Nat.toDigits 10 m = Nat.toDigits 10 n) : m = n := by
  have := congrArg (fun cs => Nat.ofDigitChars 10 cs 0) h
  simpa only [Nat.ofDigitChars_ten_toDigits] using this

/-- What follows the last of a character is found by reading backwards. -/
theorem split_last {c : Char} {xs xs' ys ys' : List Char} (h : xs ++ c :: ys = xs' ++ c :: ys') (hy : c ∉ ys) (hy' : c ∉ ys') :
    xs = xs' ∧ ys = ys' := by
  rcases List.append_eq_append_iff.mp h with ⟨as, rfl, hcons⟩ | ⟨as, rfl, hcons⟩
  · cases as with
    | nil =>
      cases hcons
      exact ⟨(List.append_nil _).symm, rfl⟩
    | cons a as =>
      cases hcons
      exact absurd (List.mem_append_right as List.mem_cons_self) hy
  · cases as with
    | nil =>
      cases hcons
      exact ⟨List.append_nil _, rfl⟩
    | cons a as =>
      cases hcons
      exact absurd (List.mem_append_right as List.mem_cons_self) hy'

theorem isDigit_padded {width n : ℕ} {c : Char} (h : c ∈ padded width n) : c.isDigit = true := by
  rcases List.mem_append.mp h with h | h
  · rw [List.eq_of_mem_replicate h]
    rfl
  · exact isDigit_toDigits h

/-- Leading zeros do not change what digits stand for. -/
theorem ofDigitChars_padded (width n : ℕ) : Nat.ofDigitChars 10 (padded width n) 0 = n := by
  unfold padded
  generalize width - (Nat.toDigits 10 n).length = k
  induction k with
  | zero => simp [Nat.ofDigitChars_ten_toDigits]
  | succ k ih =>
    rw [List.replicate_succ, List.cons_append]
    simpa [Nat.ofDigitChars_cons] using ih

theorem padded_inj {width m n : ℕ} (h : padded width m = padded width n) : m = n := by
  have := congrArg (fun cs => Nat.ofDigitChars 10 cs 0) h
  simpa only [ofDigitChars_padded] using this

theorem length_padded {width n : ℕ} (hw : 0 < width) (h : n < 10 ^ width) : (padded width n).length = width := by
  have hl : (Nat.toDigits 10 n).length ≤ width := (Nat.length_toDigits_le_iff (by omega) hw).mpr h
  simp only [padded, List.length_append, List.length_replicate]
  omega

/-! ## A text determines its number -/

/-- The exponent, if there is one, starts with a letter. -/
theorem exponentText_head (e : Option ℤ) : ∀ c ∈ (exponentText e).head?, c = 'e' := by
  cases e with
  | none => simp [exponentText]
  | some e => simp [exponentText]

/-- What follows the whole part does not start with a digit. -/
theorem tail_head (t : NumberToken) : ∀ c ∈ (t.fractionText ++ exponentText t.exponent).head?, c.isDigit = false := by
  intro c hc
  unfold fractionText at hc
  split at hc
  · rw [exponentText_head t.exponent c hc]
    rfl
  · simp only [List.cons_append, List.head?_cons, Option.mem_def, Option.some.injEq] at hc
    rw [← hc]
    rfl

theorem exponentText_inj {e e' : Option ℤ} (h : exponentText e = exponentText e') : e = e' := by
  cases e with
  | none =>
    cases e' with
    | none => rfl
    | some e' => cases h
  | some e =>
    cases e' with
    | none => cases h
    | some e' =>
      simp only [exponentText, List.cons.injEq, true_and] at h
      obtain ⟨hs, hp⟩ := h
      have hn := padded_inj hp
      have he : e < 0 ↔ e' < 0 := by
        by_cases h1 : e < 0 <;> by_cases h2 : e' < 0 <;> simp [h1, h2] at hs ⊢
      congr 1
      omega

/-- A fraction and the exponent after it are read in one way only. -/
theorem fraction_inj {t t' : NumberToken}
    (h : t.fractionText ++ exponentText t.exponent = t'.fractionText ++ exponentText t'.exponent) :
    t.places = t'.places ∧ t.fraction = t'.fraction ∧ t.exponent = t'.exponent := by
  have hlt := t.fraction_lt
  have hlt' := t'.fraction_lt
  unfold fractionText at h
  by_cases hp : t.places = 0 <;> by_cases hp' : t'.places = 0
  · simp only [hp, hp', if_true, List.nil_append] at h
    rw [hp, pow_zero] at hlt
    rw [hp', pow_zero] at hlt'
    exact ⟨hp.trans hp'.symm, by omega, exponentText_inj h⟩
  · simp only [hp, hp', if_true, if_false, List.nil_append, List.cons_append] at h
    have := exponentText_head t.exponent '.' (by simp [h])
    cases this
  · simp only [hp, hp', if_true, if_false, List.nil_append, List.cons_append] at h
    have := exponentText_head t'.exponent '.' (by simp [← h])
    cases this
  · simp only [hp, hp', if_false, List.cons_append, List.cons.injEq, true_and] at h
    have hhead : ∀ e : Option ℤ, ∀ c ∈ (exponentText e).head?, c.isDigit = false := by
      intro e c hc
      rw [exponentText_head e c hc]
      rfl
    obtain ⟨hf, he⟩ := span_unique Char.isDigit (fun c hc => isDigit_padded hc) (fun c hc => isDigit_padded hc)
      (hhead t.exponent) (hhead t'.exponent) h
    have hl := congrArg List.length hf
    rw [length_padded (Nat.pos_of_ne_zero hp) hlt, length_padded (Nat.pos_of_ne_zero hp') hlt'] at hl
    rw [hl] at hf
    exact ⟨hl, padded_inj hf, exponentText_inj he⟩

/-- The digits of a whole part are not a sign. -/
theorem toDigits_append_ne_minus {n : ℕ} {cs ds : List Char} (h : Nat.toDigits 10 n ++ cs = '-' :: ds) : False := by
  cases hd : Nat.toDigits 10 n with
  | nil => exact Nat.toDigits_ne_nil hd
  | cons c rest =>
    rw [hd, List.cons_append, List.cons.injEq] at h
    have hc : c.isDigit = true := isDigit_toDigits (n := n) (by rw [hd]; simp)
    rw [h.1] at hc
    cases hc

/-- Two different numbers are written differently. -/
theorem text_inj {t t' : NumberToken} (h : t.text = t'.text) : t = t' := by
  have hneg : t.neg = t'.neg := by
    unfold text at h
    cases hn : t.neg <;> cases hn' : t'.neg
    · rfl
    · rw [hn, hn'] at h
      exact (toDigits_append_ne_minus (by simpa using h)).elim
    · rw [hn, hn'] at h
      exact (toDigits_append_ne_minus (by simpa using h.symm)).elim
    · rfl
  unfold text at h
  rw [hneg, List.append_cancel_left_eq] at h
  obtain ⟨hw, ht⟩ := span_unique Char.isDigit (fun c hc => isDigit_toDigits hc) (fun c hc => isDigit_toDigits hc)
    (tail_head t) (tail_head t') h
  have hwhole := toDigits_inj hw
  obtain ⟨hp, hf, he⟩ := fraction_inj ht
  cases t
  cases t'
  simp_all

/-- The characters of a number: digits, signs, the point and the `e`. -/
theorem text_chars (t : NumberToken) : ∀ c ∈ t.text, c.isDigit = true ∨ c ∈ ['-', '+', '.', 'e'] := by
  have hexp : ∀ c ∈ exponentText t.exponent, c.isDigit = true ∨ c ∈ ['-', '+', '.', 'e'] := by
    intro c hc
    cases he : t.exponent with
    | none => rw [he] at hc; simp [exponentText] at hc
    | some e =>
      rw [he] at hc
      simp only [exponentText, List.mem_cons] at hc
      rcases hc with rfl | rfl | hc
      · simp
      · split <;> simp
      · exact Or.inl (isDigit_padded hc)
  intro c hc
  simp only [text, List.mem_append] at hc
  rcases hc with hc | hc | hc | hc
  · split at hc
    · simp_all
    · simp at hc
  · exact Or.inl (isDigit_toDigits hc)
  · unfold fractionText at hc
    split at hc
    · simp at hc
    · rcases List.mem_cons.mp hc with rfl | hc
      · simp
      · exact Or.inl (isDigit_padded hc)
  · exact hexp c hc

end NumberToken

/-! ## Floats -/

namespace FloatRepr

/-- The digits of a written float are those of its `repr`, perhaps with zeros after them. -/
theorem token_value (f : FloatRepr) :
    f.token.neg = f.neg ∧ ∃ k : ℕ, f.token.coeff = f.digits * 10 ^ k ∧ f.token.power = f.exp - k := by
  have hn : 0 < (Nat.toDigits 10 f.digits).length := Nat.length_toDigits_pos
  unfold token
  simp only
  split
  · split
    · rename_i he
      refine ⟨rfl, f.exp.toNat + 1, ?_, ?_⟩
      · simp only [NumberToken.coeff]
        ring
      · simp only [NumberToken.power, Option.getD_none]
        omega
    · refine ⟨rfl, 0, ?_, ?_⟩
      · simp only [NumberToken.coeff, pow_zero, mul_one]
        exact Nat.div_add_mod' _ _
      · simp only [NumberToken.power, Option.getD_none]
        omega
  · refine ⟨rfl, 0, ?_, ?_⟩
    · simp only [NumberToken.coeff, pow_zero, mul_one]
      exact Nat.div_add_mod' _ _
    · simp only [NumberToken.power, Option.getD_some]
      omega

/-- Removing zeros from a number that ends in `k` of them. -/
theorem stripZeros_mul {d : ℕ} (hd : d % 10 ≠ 0) (k : ℕ) :
    ∀ {fuel : ℕ} {e : ℤ}, k ≤ fuel → stripZeros fuel (d * 10 ^ k) e = (d, e + k) := by
  induction k with
  | zero =>
    intro fuel e _
    cases fuel with
    | zero => simp [stripZeros]
    | succ fuel => simp [stripZeros, hd]
  | succ k ih =>
    intro fuel e hk
    cases fuel with
    | zero => omega
    | succ fuel =>
      have h10 : d * 10 ^ (k + 1) = d * 10 ^ k * 10 := by ring
      rw [stripZeros, h10, if_pos (Nat.mul_mod_left _ _), Nat.mul_div_cancel _ (by omega), ih (by omega)]
      congr 1
      push_cast
      omega

/-- The decimal a `repr` writes, with or without zeros after it, reads as the float it is the `repr` of. -/
theorem ofDecimal_repr (f : FloatRepr) (k : ℕ) : ofDecimal f.neg (f.digits * 10 ^ k) (f.exp - k) = some f := by
  have hfuel : f.digits ≠ 0 → k ≤ (Nat.toDigits 10 (f.digits * 10 ^ k)).length := by
    intro hne
    by_contra hlt
    cases k with
    | zero => omega
    | succ k =>
      have := (Nat.length_toDigits_le_iff (b := 10) (n := f.digits * 10 ^ (k + 1)) (by omega) (Nat.succ_pos k)).mp (by omega)
      have hpos : 10 ^ (k + 1) ≤ f.digits * 10 ^ (k + 1) := Nat.le_mul_of_pos_left _ (Nat.pos_of_ne_zero hne)
      omega
  have hstrip : (if f.digits * 10 ^ k = 0 then (0, 0)
      else stripZeros (Nat.toDigits 10 (f.digits * 10 ^ k)).length (f.digits * 10 ^ k) (f.exp - k)) = (f.digits, f.exp) := by
    rcases f.canonical with ⟨hd, he⟩ | hd
    · simp [hd, he]
    · have hne : f.digits ≠ 0 := by
        intro h0
        rw [h0] at hd
        exact hd rfl
      rw [if_neg (by positivity), stripZeros_mul hd k (hfuel hne)]
      congr 1
      omega
  unfold ofDecimal
  rw [hstrip]
  simp only
  rw [dif_pos ⟨f.canonical, f.short⟩]

/-- `float(repr(x)) == x`, and nothing else reads as it does. -/
theorem ofDecimal_token (f : FloatRepr) : ofDecimal f.neg f.token.coeff f.token.power = some f := by
  obtain ⟨-, k, hc, hp⟩ := f.token_value
  rw [hc, hp]
  exact f.ofDecimal_repr k

/-- Two different floats are written differently. -/
theorem token_inj {f g : FloatRepr} (h : f.token = g.token) : f = g := by
  have hf := f.ofDecimal_token
  have hneg : f.neg = g.neg := by rw [← f.token_value.1, ← g.token_value.1, h]
  rw [h, hneg, g.ofDecimal_token] at hf
  exact (Option.some.inj hf).symm

/-- A float is always written with a point or with an exponent. -/
theorem token_not_whole (f : FloatRepr) : ¬(f.token.places = 0 ∧ f.token.exponent = none) := by
  unfold token
  simp only
  split
  · split
    · simp
    · simp only [not_and]
      omega
  · simp

end FloatRepr

theorem intToken_inj {m n : ℤ} (h : intToken m = intToken n) : m = n := by
  simp only [intToken, NumberToken.mk.injEq, decide_eq_decide] at h
  omega
