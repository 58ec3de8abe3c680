import FraudDetection.Lib.FixedDigits
import FraudDetection.Lib.JsonDecode
import Mathlib.Data.List.Basic

/-!
# Whole numbers in base 16

`int(text, 16)`, which takes spaces around a number, a sign, `0x`, single underscores between digits, and the decimal digits of every
script. Numbers are written with the digits `0` to `f`.
-/

namespace HexText

/-- The digit of a number below 16. -/
def hexChar (n : ℕ) : ℕ := if n < 10 then n + 0x30 else n - 10 + 0x61

/-- White space in ASCII, and beyond it. -/
def isSpace (c : ℕ) : Bool := decide (0x09 ≤ c ∧ c ≤ 0x0D ∨ c = 0x20)
def wideSpaces : List ℕ :=
  [0x85, 0xA0, 0x1680, 0x2000, 0x2001, 0x2002, 0x2003, 0x2004, 0x2005, 0x2006, 0x2007, 0x2008, 0x2009, 0x200A, 0x2028, 0x2029,
    0x202F, 0x205F, 0x3000]

/-- The zeros of the scripts that have decimal digits, each with the other nine after it (Unicode 16). -/
def zeros : List ℕ :=
  [0x660, 0x6F0, 0x7C0, 0x966, 0x9E6, 0xA66, 0xAE6, 0xB66, 0xBE6, 0xC66, 0xCE6, 0xD66, 0xDE6, 0xE50, 0xED0, 0xF20, 0x1040, 0x1090,
    0x17E0, 0x1810, 0x1946, 0x19D0, 0x1A80, 0x1A90, 0x1B50, 0x1BB0, 0x1C40, 0x1C50, 0xA620, 0xA8D0, 0xA900, 0xA9D0, 0xA9F0, 0xAA50,
    0xABF0, 0xFF10, 0x104A0, 0x10D30, 0x10D40, 0x11066, 0x110F0, 0x11136, 0x111D0, 0x112F0, 0x11450, 0x114D0, 0x11650, 0x116C0,
    0x116D0, 0x116DA, 0x11730, 0x118E0, 0x11950, 0x11BF0, 0x11C50, 0x11D50, 0x11DA0, 0x11F50, 0x16130, 0x16A60, 0x16AC0, 0x16B50,
    0x16D70, 0x1CCF0, 0x1D7CE, 0x1D7D8, 0x1D7E2, 0x1D7EC, 0x1D7F6, 0x1E140, 0x1E2F0, 0x1E4F0, 0x1E5F1, 0x1E950, 0x1FBF0]

/-- A character as ASCII: a space, a digit, or something that no number contains. -/
def asciiOf (c : ℕ) : ℕ :=
  if c < 0x7F then c
  else if c ∈ wideSpaces then 0x20
  else
    match zeros.find? fun z => decide (z ≤ c ∧ c < z + 10) with
    | some z => c - z + 0x30
    | none => 0x3F

/-- `_PyUnicode_TransformDecimalAndSpaceToASCII`, which leaves a text in ASCII as it is. -/
def toAscii (text : PyStr) : PyStr := if text.all fun c => decide (c < 0x80) then text else text.map asciiOf

/-- A text without some characters at its ends. -/
def strip (p : ℕ → Bool) (text : PyStr) : PyStr := ((text.dropWhile p).reverse.dropWhile p).reverse

/-- What follows `0x`, and an underscore after it. -/
def afterPrefix (text : PyStr) : PyStr :=
  match text with
  | 0x30 :: x :: rest =>
    if x = 0x78 ∨ x = 0x58 then if rest.head? = some 0x5F then rest.tail else rest
    else text
  | _ => text

/-- Digits in base 16, after a number that those before them wrote. An underscore may only follow a digit, and must be followed by
one. -/
def hexValue : Bool → ℕ → PyStr → Option ℕ
  | afterDigit, n, [] => if afterDigit then some n else none
  | afterDigit, n, c :: rest =>
    if c = 0x5F then if afterDigit then hexValue false n rest else none
    else (JsonDecode.hexDigit c).bind fun d => hexValue true (n * 16 + d) rest

/-- `int(text, 16)`: `none` is a `ValueError`. -/
def parseInt (text : PyStr) : Option ℤ :=
  let signed := strip isSpace (toAscii text)
  (hexValue false 0 (afterPrefix (JsonDecode.afterSign signed))).map fun n : ℕ => if signed.head? = some 0x2D then -(n : ℤ) else n

/-! ## Digits are read back -/

theorem hexDigit_char : ∀ d < 16, JsonDecode.hexDigit (hexChar d) = some d := by decide

/-- A digit, as `hexChar` writes it. -/
def IsHex (c : ℕ) : Prop := ∃ d < 16, c = hexChar d

theorem IsHex.bounds {c : ℕ} (h : IsHex c) : 0x30 ≤ c ∧ c ≤ 0x39 ∨ 0x61 ≤ c ∧ c ≤ 0x66 := by
  obtain ⟨d, hd, rfl⟩ := h
  unfold hexChar
  split
  · omega
  · omega

/-- Nothing is stripped from a text that has none of the characters. -/
theorem strip_eq_self {p : ℕ → Bool} {text : PyStr} (h : ∀ c ∈ text, p c = false) : strip p text = text := by
  have hdrop : ∀ l : PyStr, (∀ c ∈ l, p c = false) → l.dropWhile p = l := by
    intro l hl
    cases l with
    | nil => rfl
    | cons c l => rw [List.dropWhile_cons_of_neg (by rw [hl c List.mem_cons_self]; decide)]
  unfold strip
  rw [hdrop text h, hdrop _ fun c hc => h c (List.mem_reverse.mp hc), List.reverse_reverse]

theorem hexValue_digits {text : PyStr} (h : ∀ c ∈ text, IsHex c) :
    ∀ {afterDigit : Bool} {n : ℕ}, (text = [] → afterDigit = true) →
      hexValue afterDigit n text = FixedDigits.value 16 JsonDecode.hexDigit n text := by
  induction text with
  | nil =>
    intro afterDigit n hafter
    rw [hexValue, if_pos (hafter rfl), FixedDigits.value]
  | cons c rest ih =>
    intro afterDigit n _
    have hc := (h c List.mem_cons_self).bounds
    have hnext : ∀ m, hexValue true m rest = FixedDigits.value 16 JsonDecode.hexDigit m rest := fun m =>
      ih (fun x hx => h x (List.mem_cons_of_mem c hx)) fun _ => rfl
    rw [hexValue, if_neg (by omega), FixedDigits.value]
    simp only [hnext]

/-- Digits alone are the number they write. -/
theorem parseInt_digits {text : PyStr} (hne : text ≠ []) (h : ∀ c ∈ text, IsHex c) :
    parseInt text = (FixedDigits.value 16 JsonDecode.hexDigit 0 text).map fun n : ℕ => (n : ℤ) := by
  have hascii : toAscii text = text := by
    unfold toAscii
    rw [if_pos]
    refine List.all_eq_true.mpr fun c hc => decide_eq_true ?_
    have := (h c hc).bounds
    omega
  have hspace : strip isSpace text = text := by
    refine strip_eq_self fun c hc => decide_eq_false ?_
    have := (h c hc).bounds
    omega
  have hhead : ∀ sign, (sign = 0x2D ∨ sign = 0x2B) → text.head? ≠ some sign := by
    intro sign hsign h0
    have := (h sign (List.mem_of_mem_head? h0)).bounds
    omega
  have hsign : JsonDecode.afterSign text = text := by
    unfold JsonDecode.afterSign
    rw [if_neg]
    rintro (h0 | h0)
    · exact hhead _ (.inl rfl) h0
    · exact hhead _ (.inr rfl) h0
  have hprefix : afterPrefix text = text := by
    unfold afterPrefix
    split
    · rename_i x rest
      have := (h x (by simp)).bounds
      rw [if_neg (by omega)]
    · rfl
  unfold parseInt
  simp only [hascii, hspace, hsign, hprefix, hexValue_digits h fun h0 => absurd h0 hne, if_neg (hhead _ (.inl rfl))]

end HexText
