import Mathlib.Tactic.Ring

/-!
# Numbers of a fixed number of digits

Writing a number with leading zeros in a base, and reading as many digits back. How a digit is written is a parameter.
-/

namespace FixedDigits

variable {base : ℕ} {char : ℕ → ℕ} {digit : ℕ → Option ℕ}

/-- The last `k` digits of a number. -/
def write (base : ℕ) (char : ℕ → ℕ) : ℕ → ℕ → List ℕ
  | 0, _ => []
  | k + 1, n => write base char k (n / base) ++ [char (n % base)]

/-- The number some digits write, after a number that those before them wrote. -/
def value (base : ℕ) (digit : ℕ → Option ℕ) : ℕ → List ℕ → Option ℕ
  | n, [] => some n
  | n, c :: cs => (digit c).bind fun d => value base digit (n * base + d) cs

/-- A number of `k` digits at the start of a text, and what follows it. -/
def read (base : ℕ) (digit : ℕ → Option ℕ) (k : ℕ) (text : List ℕ) : Option (ℕ × List ℕ) :=
  if k ≤ text.length then (value base digit 0 (text.take k)).map fun n => (n, text.drop k) else none

@[simp] theorem write_length (k n : ℕ) : (write base char k n).length = k := by
  induction k generalizing n with
  | zero => rfl
  | succ k ih => rw [write, List.length_append, ih, List.length_singleton]

/-- Every character written is a digit. -/
theorem mem_write {k n c : ℕ} (hbase : 0 < base) (h : c ∈ write base char k n) : ∃ d < base, c = char d := by
  induction k generalizing n with
  | zero => cases h
  | succ k ih =>
    rw [write] at h
    rcases List.mem_append.mp h with h | h
    · exact ih h
    · exact ⟨n % base, Nat.mod_lt _ hbase, List.mem_singleton.mp h⟩

theorem value_append (n : ℕ) (xs ys : List ℕ) :
    value base digit n (xs ++ ys) = (value base digit n xs).bind fun m => value base digit m ys := by
  induction xs generalizing n with
  | nil => rfl
  | cons x xs ih =>
    simp only [List.cons_append, value]
    cases digit x with
    | none => rfl
    | some d => exact ih _

/-- The digits of a number are read back as its last digits. -/
theorem value_write (hbase : 0 < base) (hd : ∀ d < base, digit (char d) = some d) (k n m : ℕ) :
    value base digit m (write base char k n) = some (m * base ^ k + n % base ^ k) := by
  induction k generalizing n m with
  | zero => simp [write, value, Nat.mod_one]
  | succ k ih =>
    rw [write, value_append, ih]
    simp only [Option.bind_some, value, hd _ (Nat.mod_lt n hbase)]
    congr 1
    rw [pow_succ', Nat.mod_mul]
    ring

/-- A number that its digits hold is read back. -/
theorem read_write (hbase : 0 < base) (hd : ∀ d < base, digit (char d) = some d) {k n : ℕ} (hn : n < base ^ k)
    (rest : List ℕ) : read base digit k (write base char k n ++ rest) = some (n, rest) := by
  have hlen : (write base char k n).length = k := write_length k n
  have htake : (write base char k n ++ rest).take k = write base char k n := List.take_left' hlen
  have hdrop : (write base char k n ++ rest).drop k = rest := List.drop_left' hlen
  unfold read
  rw [htake, hdrop, value_write hbase hd, Nat.zero_mul, Nat.zero_add, Nat.mod_eq_of_lt hn, if_pos]
  · rfl
  · rw [List.length_append]
    omega

end FixedDigits
