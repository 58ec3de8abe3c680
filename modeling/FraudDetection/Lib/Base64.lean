import Mathlib.Data.Nat.Notation

/-!
# Base64

The URL-safe alphabet, and a decoder that is not strict: it takes both alphabets, skips what is in neither, and ends at the
padding of a group. Bytes and characters are numbers.
-/

namespace Base64

/-- The padding character. -/
def pad : ℕ := 0x3D

/-- The character of six bits. -/
def char (n : ℕ) : ℕ :=
  if n < 26 then n + 0x41 else if n < 52 then n - 26 + 0x61 else if n < 62 then n - 52 + 0x30 else if n = 62 then 0x2D else 0x5F

/-- The six bits of a character. -/
def sextet (c : ℕ) : Option ℕ :=
  if 0x41 ≤ c ∧ c ≤ 0x5A then some (c - 0x41)
  else if 0x61 ≤ c ∧ c ≤ 0x7A then some (c - 0x61 + 26)
  else if 0x30 ≤ c ∧ c ≤ 0x39 then some (c - 0x30 + 52)
  else if c = 0x2B ∨ c = 0x2D then some 62
  else if c = 0x2F ∨ c = 0x5F then some 63
  else none

/-- Three bytes are four characters; the last group is padded to four. -/
def encode : List ℕ → List ℕ
  | a :: b :: c :: rest =>
    char (a / 4) :: char (a % 4 * 16 + b / 16) :: char (b % 16 * 4 + c / 64) :: char (c % 64) :: encode rest
  | [a, b] => [char (a / 4), char (a % 4 * 16 + b / 16), char (b % 16 * 4), pad]
  | [a] => [char (a / 4), char (a % 4 * 16), pad, pad]
  | [] => []

/-- Decode from inside a group: `quad` characters of it have been read, `left` is what the last of them left over, and `pads` pads
have followed it. -/
def decodeFrom : (quad left pads : ℕ) → List ℕ → Option (List ℕ)
  | quad, _, _, [] => if quad = 0 then some [] else none
  | quad, left, pads, c :: cs =>
    if c = pad then
      if 2 ≤ quad then if 4 ≤ quad + (pads + 1) then some [] else decodeFrom quad left (pads + 1) cs
      else decodeFrom quad left pads cs
    else
      match sextet c with
      | none => decodeFrom quad left pads cs
      | some v =>
        if quad = 0 then decodeFrom 1 v 0 cs
        else if quad = 1 then (decodeFrom 2 (v % 16) 0 cs).map ((left * 4 + v / 16) :: ·)
        else if quad = 2 then (decodeFrom 3 (v % 4) 0 cs).map ((left * 16 + v / 4) :: ·)
        else (decodeFrom 0 0 0 cs).map ((left * 64 + v) :: ·)

def decode (text : List ℕ) : Option (List ℕ) := decodeFrom 0 0 0 text

/-- A text without the padding at its end. -/
def unpad (text : List ℕ) : List ℕ := (text.reverse.dropWhile (· == pad)).reverse

/-- A text with as much padding as makes its length a multiple of four. -/
def repad (text : List ℕ) : List ℕ := text ++ List.replicate ((4 - text.length % 4) % 4) pad

theorem sextet_char : ∀ n < 64, sextet (char n) = some n := by decide

theorem char_ne_pad : ∀ n < 64, char n ≠ pad := by decide

/-- A character of the URL-safe alphabet: a letter, a digit, `-` or `_`. -/
def UrlSafe (c : ℕ) : Prop :=
  (0x41 ≤ c ∧ c ≤ 0x5A) ∨ (0x61 ≤ c ∧ c ≤ 0x7A) ∨ (0x30 ≤ c ∧ c ≤ 0x39) ∨ c = 0x2D ∨ c = 0x5F

theorem char_urlSafe : ∀ n < 64, UrlSafe (char n) := by
  unfold UrlSafe
  decide

theorem UrlSafe.ne_pad {c : ℕ} (h : UrlSafe c) : c ≠ pad := by
  unfold UrlSafe at h
  unfold pad
  omega

theorem UrlSafe.lt {c : ℕ} (h : UrlSafe c) : c < 128 := by
  unfold UrlSafe at h
  omega

/-- A character of six bits inside a group. -/
theorem decodeFrom_char {n : ℕ} (hn : n < 64) (quad left pads : ℕ) (cs : List ℕ) :
    decodeFrom quad left pads (char n :: cs) =
      if quad = 0 then decodeFrom 1 n 0 cs
      else if quad = 1 then (decodeFrom 2 (n % 16) 0 cs).map ((left * 4 + n / 16) :: ·)
      else if quad = 2 then (decodeFrom 3 (n % 4) 0 cs).map ((left * 16 + n / 4) :: ·)
      else (decodeFrom 0 0 0 cs).map ((left * 64 + n) :: ·) := by
  rw [decodeFrom, if_neg (char_ne_pad n hn), sextet_char n hn]

/-- Bytes that were encoded are decoded, whatever follows their last whole group. -/
theorem decode_encode {bytes : List ℕ} (h : ∀ b ∈ bytes, b < 256) : decode (encode bytes) = some bytes := by
  unfold decode
  induction bytes using encode.induct with
  | case1 a b c rest ih =>
    have ha : a < 256 := h a (by simp)
    have hb : b < 256 := h b (by simp)
    have hc : c < 256 := h c (by simp)
    rw [encode, decodeFrom_char (by omega), if_pos rfl, decodeFrom_char (by omega), if_neg (by omega), if_pos rfl,
      decodeFrom_char (by omega), if_neg (by omega), if_neg (by omega), if_pos rfl, decodeFrom_char (by omega),
      if_neg (by omega), if_neg (by omega), if_neg (by omega), ih fun x hx => h x (by simp [hx])]
    simp only [Option.map_some]
    congr 2
    · omega
    · congr 1
      · omega
      · congr 1
        omega
  | case2 a b =>
    have ha : a < 256 := h a (by simp)
    have hb : b < 256 := h b (by simp)
    rw [encode, decodeFrom_char (by omega), if_pos rfl, decodeFrom_char (by omega), if_neg (by omega), if_pos rfl,
      decodeFrom_char (by omega), if_neg (by omega), if_neg (by omega), if_pos rfl]
    have hpad : decodeFrom 3 (b % 16 * 4 % 4) 0 [pad] = some [] := by simp [decodeFrom]
    rw [hpad]
    simp only [Option.map_some]
    congr 2
    · omega
    · congr 1
      omega
  | case3 a =>
    have ha : a < 256 := h a (by simp)
    rw [encode, decodeFrom_char (by omega), if_pos rfl, decodeFrom_char (by omega), if_neg (by omega), if_pos rfl]
    have hpad : decodeFrom 2 (a % 4 * 16 % 16) 0 [pad, pad] = some [] := by simp [decodeFrom]
    rw [hpad]
    simp only [Option.map_some]
    congr 2
    omega
  | case4 => simp [encode, decodeFrom]

/-- The text of some bytes: characters that are no padding, and at most two of padding after them. -/
theorem encode_eq {bytes : List ℕ} (h : ∀ b ∈ bytes, b < 256) :
    ∃ chars : List ℕ, ∃ k : ℕ, (∀ c ∈ chars, UrlSafe c) ∧ k ≤ 2 ∧ (chars.length + k) % 4 = 0 ∧
      3 * chars.length ≤ 4 * bytes.length + 2 ∧ encode bytes = chars ++ List.replicate k pad := by
  induction bytes using encode.induct with
  | case1 a b c rest ih =>
    have ha : a < 256 := h a (by simp)
    have hb : b < 256 := h b (by simp)
    obtain ⟨chars, k, hchars, hk, hlen, hle, heq⟩ := ih fun x hx => h x (by simp [hx])
    refine ⟨char (a / 4) :: char (a % 4 * 16 + b / 16) :: char (b % 16 * 4 + c / 64) :: char (c % 64) :: chars, k, ?_, hk, ?_,
      ?_, ?_⟩
    · have hc : c < 256 := h c (by simp)
      intro x hx
      simp only [List.mem_cons] at hx
      rcases hx with rfl | rfl | rfl | rfl | hx
      · exact char_urlSafe _ (by omega)
      · exact char_urlSafe _ (by omega)
      · exact char_urlSafe _ (by omega)
      · exact char_urlSafe _ (by omega)
      · exact hchars x hx
    · simp only [List.length_cons]
      omega
    · simp only [List.length_cons]
      omega
    · rw [encode, heq]
      rfl
  | case2 a b =>
    have ha : a < 256 := h a (by simp)
    have hb : b < 256 := h b (by simp)
    refine ⟨[char (a / 4), char (a % 4 * 16 + b / 16), char (b % 16 * 4)], 1, ?_, by omega, by simp, ?_, rfl⟩
    · intro x hx
      simp only [List.mem_cons, List.not_mem_nil, or_false] at hx
      rcases hx with rfl | rfl | rfl
      · exact char_urlSafe _ (by omega)
      · exact char_urlSafe _ (by omega)
      · exact char_urlSafe _ (by omega)
    · simp
  | case3 a =>
    have ha : a < 256 := h a (by simp)
    refine ⟨[char (a / 4), char (a % 4 * 16)], 2, ?_, by omega, by simp, ?_, rfl⟩
    · intro x hx
      simp only [List.mem_cons, List.not_mem_nil, or_false] at hx
      rcases hx with rfl | rfl
      · exact char_urlSafe _ (by omega)
      · exact char_urlSafe _ (by omega)
    · simp
  | case4 => exact ⟨[], 0, by simp, by omega, rfl, by simp, rfl⟩

theorem unpad_append {chars : List ℕ} (h : ∀ c ∈ chars, c ≠ pad) (k : ℕ) : unpad (chars ++ List.replicate k pad) = chars := by
  unfold unpad
  rw [List.reverse_append, List.reverse_replicate]
  have hdrop : ∀ k, (List.replicate k pad ++ chars.reverse).dropWhile (· == pad) = chars.reverse := by
    intro k
    induction k with
    | zero =>
      rw [List.replicate_zero, List.nil_append]
      cases hr : chars.reverse with
      | nil => rfl
      | cons c cs =>
        have hc : c ≠ pad := h c (List.mem_reverse.mp (hr ▸ List.mem_cons_self))
        rw [List.dropWhile_cons_of_neg (by simpa using hc)]
    | succ k ih =>
      rw [List.replicate_succ, List.cons_append, List.dropWhile_cons_of_pos (by simp)]
      exact ih
  rw [hdrop, List.reverse_reverse]

/-- Taking the padding off and putting it back. -/
theorem repad_unpad_encode {bytes : List ℕ} (h : ∀ b ∈ bytes, b < 256) : repad (unpad (encode bytes)) = encode bytes := by
  obtain ⟨chars, k, hchars, hk, hlen, -, heq⟩ := encode_eq h
  rw [heq, unpad_append fun c hc => (hchars c hc).ne_pad]
  unfold repad
  congr 2
  omega

/-- A text without its padding is short, and in the alphabet. -/
theorem unpad_encode_bounds {bytes : List ℕ} (h : ∀ b ∈ bytes, b < 256) :
    (∀ c ∈ unpad (encode bytes), UrlSafe c) ∧ 3 * (unpad (encode bytes)).length ≤ 4 * bytes.length + 2 := by
  obtain ⟨chars, k, hchars, -, -, hle, heq⟩ := encode_eq h
  rw [heq, unpad_append fun c hc => (hchars c hc).ne_pad]
  exact ⟨hchars, hle⟩

/-- A text decodes to no more bytes than it has characters. -/
theorem decodeFrom_length {text : List ℕ} :
    ∀ {quad left pads : ℕ} {bytes : List ℕ}, decodeFrom quad left pads text = some bytes → bytes.length ≤ text.length := by
  induction text with
  | nil =>
    intro quad left pads bytes h
    rw [decodeFrom] at h
    split at h
    · cases h
      exact Nat.le_refl _
    · cases h
  | cons c cs ih =>
    intro quad left pads bytes h
    have skipped : ∀ {quad left pads : ℕ}, decodeFrom quad left pads cs = some bytes → bytes.length ≤ (c :: cs).length := fun h =>
      Nat.le_succ_of_le (ih h)
    have written : ∀ {quad left pads b : ℕ}, (decodeFrom quad left pads cs).map (b :: ·) = some bytes →
        bytes.length ≤ (c :: cs).length := by
      intro quad left pads b h
      obtain ⟨rest, hrest, rfl⟩ := Option.map_eq_some_iff.mp h
      exact Nat.succ_le_succ (ih hrest)
    rw [decodeFrom] at h
    split at h
    · split at h
      · split at h
        · cases h
          exact Nat.zero_le _
        · exact skipped h
      · exact skipped h
    · split at h
      · exact skipped h
      · split at h
        · exact skipped h
        · split at h
          · exact written h
          · split at h
            · exact written h
            · exact written h

theorem repad_length {text : List ℕ} {groups : ℕ} (h : text.length ≤ 4 * groups) : (repad text).length ≤ 4 * groups := by
  unfold repad
  rw [List.length_append, List.length_replicate]
  omega

end Base64
