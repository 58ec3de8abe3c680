import FraudDetection.Lib.Decimal
import Mathlib.Data.List.Chain

/-!
# JSON values as Python reads them

A JSON text decodes to a tree whose numbers are whole (`int`) or binary floating point (`float`). A float is known by its
`repr`, the shortest decimal that reads back as the same float: at most 17 significant digits and an exponent of ten. Two
floats with the same `repr` are the same, and the decimal `Decimal(str(x))` is exactly the number its `repr` writes.

A string is a text, or it is `lone`: an escape may write half of a surrogate pair, and a string with such a code point is no text.
The two halves of a pair do not stand side by side, since `json.loads` joins them. A key is a text.

An object is a list of entries in the order they were written. Python's `dict` keeps the last of two equal keys, so a decoded
object has distinct keys; nothing here depends on it.
-/

/-- A Python string: code points, of which a surrogate need not be half of a pair. -/
abbrev PyStr := List ℕ

/-- A text as a Python string. -/
def PyStr.ofString (s : String) : PyStr := s.toList.map Char.toNat

/-- Whether a code point is the first, or the second, half of a surrogate pair. -/
def isHighSurrogate (n : ℕ) : Bool := decide (0xD800 ≤ n ∧ n < 0xDC00)
def isLowSurrogate (n : ℕ) : Bool := decide (0xDC00 ≤ n ∧ n < 0xE000)

/-- Whether a code point is half of a surrogate pair. -/
def isSurrogate (n : ℕ) : Bool := isHighSurrogate n || isLowSurrogate n

/-- A string as `json.loads` gives it: no two of its code points are a surrogate pair. -/
structure PyStr.Joined (s : PyStr) : Prop where
  bounded : ∀ n ∈ s, n < 0x110000
  unpaired : s.IsChain fun m n => ¬(isHighSurrogate m = true ∧ isLowSurrogate n = true)

/-- A string that is no text: some code point is half of a surrogate pair. -/
structure LoneStr where
  points : PyStr
  joined : points.Joined
  lone : ∃ n ∈ points, isSurrogate n = true
  deriving DecidableEq, Repr

/-- The decimal a finite float is printed as: `± digits * 10 ^ exp`, with no trailing zero in `digits`. -/
structure FloatRepr where
  neg : Bool
  digits : ℕ
  exp : ℤ
  canonical : digits = 0 ∧ exp = 0 ∨ digits % 10 ≠ 0
  short : digits < 10 ^ 17
  deriving DecidableEq, Repr

/-- A Python float. -/
inductive PyFloat where
  | finite (value : FloatRepr)
  | inf (neg : Bool)
  | nan
  deriving DecidableEq, Repr

/-- A decoded JSON value. -/
inductive Json where
  | null
  | bool (value : Bool)
  | int (value : ℤ)
  | float (value : PyFloat)
  | str (value : String)
  | lone (value : LoneStr)
  | arr (items : List Json)
  | obj (entries : List (String × Json))
  deriving Repr

/-- The decimal a finite float's `repr` writes. -/
def FloatRepr.toDecimal (f : FloatRepr) : Decimal := ⟨if f.neg then -(f.digits : ℤ) else f.digits, f.exp⟩

/-- Whether a float is a number: neither an infinity nor a NaN. -/
def PyFloat.isFinite : PyFloat → Bool
  | .finite _ => true
  | _ => false

namespace Json

/-- `bool(value)`. -/
def truthy : Json → Bool
  | .null => false
  | .bool value => value
  | .int value => decide (value ≠ 0)
  | .float (.finite value) => decide (value.digits ≠ 0)
  | .float _ => true
  | .str value => decide (value ≠ "")
  | .lone _ => true
  | .arr items => !items.isEmpty
  | .obj entries => !entries.isEmpty

/-- The value under a key, if the entries have one. -/
def lookup (entries : List (String × Json)) (key : String) : Option Json :=
  (entries.find? (fun entry => entry.1 == key)).map (·.2)

@[simp] theorem lookup_nil (key : String) : lookup [] key = none := rfl

theorem lookup_cons (k : String) (v : Json) (entries : List (String × Json)) (key : String) :
    lookup ((k, v) :: entries) key = if k = key then some v else lookup entries key := by
  by_cases h : k = key <;> simp [lookup, h]

end Json
