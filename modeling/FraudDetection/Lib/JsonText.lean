import FraudDetection.Lib.NumberToken
import Mathlib.Data.List.Sort
import Mathlib.Data.String.Basic

/-!
# The canonical text of a JSON value

`json.dumps(value, sort_keys=True, separators=(",", ":"))`: no whitespace, keys in the order of their code points, everything
outside printable ASCII escaped. Two values have the same text exactly when they are the same up to the order of the keys.
-/

/-! ## Strings -/

/-- The characters with a two-character escape, each with its letter. -/
def shortEscapes : List (Char × Char) :=
  [('"', '"'), ('\\', '\\'), ('\n', 'n'), ('\r', 'r'), ('\t', 't'), ('\x08', 'b'), ('\x0c', 'f')]

/-- The letter of a two-character escape. -/
def shortEscape (c : Char) : Option Char := (shortEscapes.find? (fun e => e.1 == c)).map (·.2)

/-- Four hexadecimal digits. -/
def hex4 (n : ℕ) : List Char :=
  [Nat.digitChar (n / 4096 % 16), Nat.digitChar (n / 256 % 16), Nat.digitChar (n / 16 % 16), Nat.digitChar (n % 16)]

/-- `\uXXXX`. -/
def unitEscape (n : ℕ) : List Char := '\\' :: 'u' :: hex4 n

/-- How a character is written inside quotes. -/
def escapeChar (c : Char) : List Char :=
  match shortEscape c with
  | some letter => ['\\', letter]
  | none =>
    if ' ' ≤ c ∧ c ≤ '~' then [c]
    else if c.toNat < 0x10000 then unitEscape c.toNat
    else unitEscape (0xd800 + (c.toNat - 0x10000) / 0x400) ++ unitEscape (0xdc00 + (c.toNat - 0x10000) % 0x400)

/-- The characters of a string, escaped. -/
def escape : List Char → List Char
  | [] => []
  | c :: cs => escapeChar c ++ escape cs

/-- A string in quotes. -/
def quoted (s : String) : List Char := '"' :: (escape s.toList ++ ['"'])

/-- The code points of a string, escaped: half of a surrogate pair as the code unit it is. -/
def escapePoints : PyStr → List Char
  | [] => []
  | n :: s => (if isSurrogate n then unitEscape n else escapeChar (Char.ofNat n)) ++ escapePoints s

/-- A string that is no text, in quotes. -/
def LoneStr.quoted (s : LoneStr) : List Char := '"' :: (escapePoints s.points ++ ['"'])

/-- A string that is no text, as far as a text can show it: the halves of surrogate pairs as their escapes. -/
def LoneStr.printed (s : LoneStr) : String :=
  String.ofList (s.points.flatMap fun n => if isSurrogate n then unitEscape n else [Char.ofNat n])

/-! ## Values -/

/-- How a float is written. -/
def floatText : PyFloat → List Char
  | .finite f => f.token.text
  | .inf neg => (if neg then ['-'] else []) ++ "Infinity".toList
  | .nan => "NaN".toList

namespace Json

mutual

/-- The text of a value, its keys in the order they have. -/
def render : Json → List Char
  | .null => "null".toList
  | .bool b => if b then "true".toList else "false".toList
  | .int n => (intToken n).text
  | .float f => floatText f
  | .str s => quoted s
  | .lone s => s.quoted
  | .arr [] => ['[', ']']
  | .arr (item :: items) => '[' :: (render item ++ renderItems items)
  | .obj [] => ['\x7b', '\x7d']
  | .obj ((key, item) :: entries) => '\x7b' :: (quoted key ++ ':' :: (render item ++ renderEntries entries))

/-- The items after the first one, and the closing bracket. -/
def renderItems : List Json → List Char
  | [] => [']']
  | item :: items => ',' :: (render item ++ renderItems items)

/-- The entries after the first one, and the closing brace. -/
def renderEntries : List (String × Json) → List Char
  | [] => ['\x7d']
  | (key, item) :: entries => ',' :: (quoted key ++ ':' :: (render item ++ renderEntries entries))

end

mutual

/-- A value with the keys of every object in order. -/
def sortKeys : Json → Json
  | .arr items => .arr (sortItems items)
  | .obj entries => .obj ((sortEntries entries).insertionSort fun a b => a.1 ≤ b.1)
  | .null => .null
  | .bool b => .bool b
  | .int n => .int n
  | .float f => .float f
  | .str s => .str s
  | .lone s => .lone s

def sortItems : List Json → List Json
  | [] => []
  | item :: items => sortKeys item :: sortItems items

def sortEntries : List (String × Json) → List (String × Json)
  | [] => []
  | (key, item) :: entries => (key, sortKeys item) :: sortEntries entries

end

/-- `json.dumps(value, sort_keys=True, separators=(",", ":"))`. -/
def canonical (j : Json) : String := String.ofList (render (sortKeys j))

end Json

/-! ## Escapes -/

theorem shortEscape_mem {c letter : Char} (h : shortEscape c = some letter) : (c, letter) ∈ shortEscapes := by
  obtain ⟨⟨c', letter'⟩, hf, rfl⟩ := Option.map_eq_some_iff.mp h
  have hc := List.find?_some hf
  rw [beq_iff_eq] at hc
  exact hc ▸ List.mem_of_find?_eq_some hf

/-- A short escape is of one character only. -/
theorem shortEscape_inj {c c' letter : Char} (h : shortEscape c = some letter) (h' : shortEscape c' = some letter) : c = c' := by
  have table : ∀ p ∈ shortEscapes, ∀ q ∈ shortEscapes, p.2 = q.2 → p.1 = q.1 := by decide
  exact table _ (shortEscape_mem h) _ (shortEscape_mem h') rfl

/-- A short escape is not taken for that of a code unit. -/
theorem shortEscape_ne_u {c letter : Char} (h : shortEscape c = some letter) : letter ≠ 'u' := by
  have table : ∀ p ∈ shortEscapes, p.2 ≠ 'u' := by decide
  exact table _ (shortEscape_mem h)

theorem digitChar_inj : ∀ m < 16, ∀ n < 16, Nat.digitChar m = Nat.digitChar n → m = n := by decide

theorem hex4_inj {m n : ℕ} (hm : m < 0x10000) (hn : n < 0x10000) (h : hex4 m = hex4 n) : m = n := by
  simp only [hex4, List.cons.injEq, and_true] at h
  obtain ⟨h1, h2, h3, h4⟩ := h
  have e1 := digitChar_inj _ (Nat.mod_lt _ (by omega)) _ (Nat.mod_lt _ (by omega)) h1
  have e2 := digitChar_inj _ (Nat.mod_lt _ (by omega)) _ (Nat.mod_lt _ (by omega)) h2
  have e3 := digitChar_inj _ (Nat.mod_lt _ (by omega)) _ (Nat.mod_lt _ (by omega)) h3
  have e4 := digitChar_inj _ (Nat.mod_lt _ (by omega)) _ (Nat.mod_lt _ (by omega)) h4
  omega

/-- The escape of a code unit, and what follows it. -/
theorem unitEscape_inj {m n : ℕ} {s t : List Char} (hm : m < 0x10000) (hn : n < 0x10000)
    (h : unitEscape m ++ s = unitEscape n ++ t) : m = n ∧ s = t := by
  simp only [unitEscape, List.cons_append, List.cons.injEq, true_and] at h
  obtain ⟨hh, ht⟩ := List.append_inj h rfl
  exact ⟨hex4_inj hm hn hh, ht⟩

/-- How a character is escaped: by a letter, not at all, or by one or two code units. -/
theorem escapeChar_cases (c : Char) :
    (∃ letter, shortEscape c = some letter ∧ escapeChar c = ['\\', letter]) ∨
      (c ≠ '\\' ∧ c ≠ '"' ∧ escapeChar c = [c]) ∨
      (c.toNat < 0x10000 ∧ escapeChar c = unitEscape c.toNat) ∨
      (0x10000 ≤ c.toNat ∧ escapeChar c =
        unitEscape (0xd800 + (c.toNat - 0x10000) / 0x400) ++ unitEscape (0xdc00 + (c.toNat - 0x10000) % 0x400)) := by
  unfold escapeChar
  cases hs : shortEscape c with
  | some letter => exact Or.inl ⟨letter, rfl, rfl⟩
  | none =>
    simp only
    split
    · refine Or.inr (Or.inl ⟨?_, ?_, rfl⟩)
      · rintro rfl
        cases hs
      · rintro rfl
        cases hs
    · split
      · exact Or.inr (Or.inr (Or.inl ⟨by assumption, rfl⟩))
      · exact Or.inr (Or.inr (Or.inr ⟨by omega, rfl⟩))

/-- A character is not half of a surrogate pair. -/
theorem char_bounds (c : Char) : (c.toNat < 0xd800 ∨ 0xdfff < c.toNat) ∧ c.toNat < 0x110000 := by
  have h := c.valid
  unfold UInt32.isValidChar Nat.isValidChar at h
  change c.toNat < 0xd800 ∨ 0xdfff < c.toNat ∧ c.toNat < 0x110000 at h
  omega

/-- Two characters with one escape, whatever follows, are the same. -/
theorem escapeChar_inj {c c' : Char} {s t : List Char} (h : escapeChar c ++ s = escapeChar c' ++ t) : c = c' ∧ s = t := by
  have hb := char_bounds c
  have hb' := char_bounds c'
  rcases escapeChar_cases c with ⟨l, hl, e⟩ | ⟨hne, -, e⟩ | ⟨hc, e⟩ | ⟨hc, e⟩ <;>
    rcases escapeChar_cases c' with ⟨l', hl', e'⟩ | ⟨hne', -, e'⟩ | ⟨hc', e'⟩ | ⟨hc', e'⟩ <;>
    rw [e, e'] at h
  · simp only [List.cons_append, List.nil_append, List.cons.injEq, true_and] at h
    obtain ⟨rfl, ht⟩ := h
    exact ⟨shortEscape_inj hl hl', ht⟩
  · simp only [List.cons_append, List.nil_append, List.cons.injEq] at h
    exact absurd h.1.symm hne'
  · simp only [unitEscape, List.cons_append, List.nil_append, List.cons.injEq, true_and] at h
    exact absurd h.1 (shortEscape_ne_u hl)
  · simp only [unitEscape, List.cons_append, List.nil_append, List.cons.injEq, true_and] at h
    exact absurd h.1 (shortEscape_ne_u hl)
  · simp only [List.cons_append, List.nil_append, List.cons.injEq] at h
    exact absurd h.1 hne
  · simp only [List.cons_append, List.nil_append, List.cons.injEq] at h
    exact h
  · simp only [unitEscape, List.cons_append, List.nil_append, List.cons.injEq] at h
    exact absurd h.1 hne
  · simp only [unitEscape, List.cons_append, List.nil_append, List.cons.injEq] at h
    exact absurd h.1 hne
  · simp only [unitEscape, List.cons_append, List.nil_append, List.cons.injEq, true_and] at h
    exact absurd h.1.symm (shortEscape_ne_u hl')
  · simp only [unitEscape, List.cons_append, List.nil_append, List.cons.injEq] at h
    exact absurd h.1.symm hne'
  · obtain ⟨hn, ht⟩ := unitEscape_inj hc hc' h
    exact ⟨Char.toNat_inj.mp hn, ht⟩
  · rw [List.append_assoc] at h
    obtain ⟨hn, -⟩ := unitEscape_inj hc (by omega) h
    omega
  · simp only [unitEscape, List.cons_append, List.nil_append, List.cons.injEq, true_and] at h
    exact absurd h.1.symm (shortEscape_ne_u hl')
  · simp only [unitEscape, List.cons_append, List.nil_append, List.cons.injEq] at h
    exact absurd h.1.symm hne'
  · rw [List.append_assoc] at h
    obtain ⟨hn, -⟩ := unitEscape_inj (by omega) hc' h
    omega
  · rw [List.append_assoc, List.append_assoc] at h
    obtain ⟨hhi, h⟩ := unitEscape_inj (by omega) (by omega) h
    obtain ⟨hlo, ht⟩ := unitEscape_inj (by omega) (by omega) h
    exact ⟨Char.toNat_inj.mp (by omega), ht⟩

/-- The escape of a character does not start with a quote. -/
theorem escapeChar_ne_quote {c : Char} {s t : List Char} (h : escapeChar c ++ s = '"' :: t) : False := by
  rcases escapeChar_cases c with ⟨l, hl, e⟩ | ⟨-, hne, e⟩ | ⟨hc, e⟩ | ⟨hc, e⟩ <;> rw [e] at h
  · cases h
  · exact hne (List.cons.inj h).1
  · cases h
  · cases h

theorem escape_inj {cs : List Char} :
    ∀ {cs' s t : List Char}, escape cs ++ '"' :: s = escape cs' ++ '"' :: t → cs = cs' ∧ s = t := by
  induction cs with
  | nil =>
    intro cs' s t h
    cases cs' with
    | nil => exact ⟨rfl, (List.cons.inj h).2⟩
    | cons c' cs' =>
      simp only [escape, List.append_assoc] at h
      exact (escapeChar_ne_quote h.symm).elim
  | cons c cs ih =>
    intro cs' s t h
    cases cs' with
    | nil =>
      simp only [escape, List.append_assoc] at h
      exact (escapeChar_ne_quote h).elim
    | cons c' cs' =>
      simp only [escape, List.append_assoc] at h
      obtain ⟨rfl, hrest⟩ := escapeChar_inj h
      obtain ⟨rfl, ht⟩ := ih hrest
      exact ⟨rfl, ht⟩

/-- A quoted string is read in one way only. -/
theorem quoted_inj {a b : String} {s t : List Char} (h : quoted a ++ s = quoted b ++ t) : a = b ∧ s = t := by
  simp only [quoted, List.cons_append, List.append_assoc, List.nil_append, List.cons.injEq, true_and] at h
  obtain ⟨hc, ht⟩ := escape_inj h
  exact ⟨String.toList_inj.mp hc, ht⟩

/-! ## Escapes of halves of surrogate pairs -/

/-- A character is not half of a surrogate pair. -/
theorem not_isSurrogate (c : Char) : isSurrogate c.toNat = false := by
  have hc := char_bounds c
  simp only [isSurrogate, isHighSurrogate, isLowSurrogate, Bool.or_eq_false_iff, decide_eq_false_iff_not]
  omega

theorem isSurrogate_lt {n : ℕ} (h : isSurrogate n = true) : n < 0x10000 := by
  simp only [isSurrogate, isHighSurrogate, isLowSurrogate, Bool.or_eq_true, decide_eq_true_eq] at h
  omega

/-- A code point that is not half of a surrogate pair is a character. -/
theorem toNat_ofNat_of_bounded {n : ℕ} (h : isSurrogate n = false) (hn : n < 0x110000) : (Char.ofNat n).toNat = n := by
  simp only [isSurrogate, isHighSurrogate, isLowSurrogate, Bool.or_eq_false_iff, decide_eq_false_iff_not] at h
  have hvalid : n.isValidChar := by
    unfold Nat.isValidChar
    omega
  rw [Char.ofNat, dif_pos hvalid]
  rfl

/-- The code points of a text are escaped as its characters are. -/
theorem escape_eq_points (cs : List Char) : escape cs = escapePoints (cs.map Char.toNat) := by
  induction cs with
  | nil => rfl
  | cons c cs ih => rw [List.map_cons, escapePoints, not_isSurrogate, Char.ofNat_toNat, escape, ih, if_neg Bool.false_ne_true]

theorem quoted_eq_points (s : String) : quoted s = '"' :: (escapePoints (PyStr.ofString s) ++ ['"']) := by
  rw [quoted, escape_eq_points]
  rfl

/-- The code points of a text are no surrogate pairs. -/
theorem joined_ofString (s : String) : (PyStr.ofString s).Joined := by
  have hpoint : ∀ n ∈ PyStr.ofString s, isSurrogate n = false ∧ n < 0x110000 := by
    intro n hn
    obtain ⟨c, -, rfl⟩ := List.mem_map.mp hn
    exact ⟨not_isSurrogate c, (char_bounds c).2⟩
  refine ⟨fun n hn => (hpoint n hn).2, ?_⟩
  refine List.Pairwise.isChain (List.pairwise_of_forall_mem_list fun m hm n _ => ?_)
  rintro ⟨hhigh, -⟩
  have hm := (hpoint m hm).1
  rw [isSurrogate, hhigh, Bool.true_or] at hm
  cases hm

/-- The escape of a code unit starts that of a character only as its first half. -/
theorem unitEscape_eq_escapeChar {n : ℕ} {c : Char} {s t : List Char} (hn : isSurrogate n = true)
    (h : unitEscape n ++ s = escapeChar c ++ t) :
    isHighSurrogate n = true ∧ ∃ low, isLowSurrogate low = true ∧ s = unitEscape low ++ t := by
  have hlt := isSurrogate_lt hn
  have hb := char_bounds c
  rcases escapeChar_cases c with ⟨letter, hl, e⟩ | ⟨hne, -, e⟩ | ⟨hc, e⟩ | ⟨hc, e⟩ <;> rw [e] at h
  · simp only [unitEscape, List.cons_append, List.nil_append, List.cons.injEq, true_and] at h
    exact absurd h.1.symm (shortEscape_ne_u hl)
  · simp only [unitEscape, List.cons_append, List.nil_append, List.cons.injEq] at h
    exact absurd h.1.symm hne
  · obtain ⟨rfl, -⟩ := unitEscape_inj hlt hc h
    rw [not_isSurrogate] at hn
    cases hn
  · rw [List.append_assoc] at h
    obtain ⟨rfl, hs⟩ := unitEscape_inj hlt (by omega) h
    refine ⟨?_, _, ?_, hs⟩
    · simp only [isHighSurrogate, decide_eq_true_eq]
      omega
    · simp only [isLowSurrogate, decide_eq_true_eq]
      omega

/-- An escaped string whose text goes on with a low half starts with that half. -/
theorem escapePoints_low {ps : PyStr} {low : ℕ} {s t : List Char} (hlow : isLowSurrogate low = true)
    (h : escapePoints ps ++ '"' :: s = unitEscape low ++ t) : ∃ rest, ps = low :: rest := by
  have hsurrogate : isSurrogate low = true := by rw [isSurrogate, hlow, Bool.or_true]
  cases ps with
  | nil =>
    simp only [escapePoints, unitEscape, List.nil_append, List.cons_append, List.cons.injEq] at h
    exact absurd h.1 (by decide)
  | cons p rest =>
    rw [escapePoints, List.append_assoc] at h
    by_cases hp : isSurrogate p = true
    · rw [if_pos hp] at h
      obtain ⟨rfl, -⟩ := unitEscape_inj (isSurrogate_lt hp) (isSurrogate_lt hsurrogate) h
      exact ⟨rest, rfl⟩
    · rw [if_neg hp] at h
      obtain ⟨hhigh, -⟩ := unitEscape_eq_escapeChar hsurrogate h.symm
      simp only [isHighSurrogate, isLowSurrogate, decide_eq_true_eq] at hhigh hlow
      omega

/-- Half of a surrogate pair, followed by a string, is not written as a character followed by another: the character would be written
as a pair, whose other half the string would have to start with. -/
theorem surrogate_ne_escapeChar {n : ℕ} {ps : PyStr} {c : Char} {s t : List Char} (hn : isSurrogate n = true)
    (hj : PyStr.Joined (n :: ps)) : unitEscape n ++ (escapePoints ps ++ '"' :: s) ≠ escapeChar c ++ t := by
  intro h
  obtain ⟨hhigh, low, hlow, hs⟩ := unitEscape_eq_escapeChar hn h
  obtain ⟨rest, rfl⟩ := escapePoints_low hlow hs
  exact hj.unpaired.rel ⟨hhigh, hlow⟩

theorem PyStr.Joined.tail {n : ℕ} {s : PyStr} (h : PyStr.Joined (n :: s)) : s.Joined :=
  ⟨fun m hm => h.bounded m (List.mem_cons_of_mem n hm), h.unpaired.of_cons⟩

/-- Two strings without surrogate pairs are escaped alike only if they are the same. -/
theorem escapePoints_inj {ps : PyStr} : ∀ {qs : PyStr} {s t : List Char}, ps.Joined → qs.Joined →
    escapePoints ps ++ '"' :: s = escapePoints qs ++ '"' :: t → ps = qs ∧ s = t := by
  have quote : ∀ {n : ℕ} {s t : List Char},
      (if isSurrogate n then unitEscape n else escapeChar (Char.ofNat n)) ++ s ≠ '"' :: t := by
    intro n s t h
    split at h
    · simp only [unitEscape, List.cons_append, List.cons.injEq] at h
      exact absurd h.1 (by decide)
    · exact escapeChar_ne_quote h
  induction ps with
  | nil =>
    intro qs s t _ _ h
    cases qs with
    | nil => exact ⟨rfl, (List.cons.inj h).2⟩
    | cons q qs =>
      simp only [escapePoints, List.append_assoc] at h
      exact absurd h.symm quote
  | cons p ps ih =>
    intro qs s t hps hqs h
    cases qs with
    | nil =>
      simp only [escapePoints, List.append_assoc] at h
      exact absurd h quote
    | cons q qs =>
      have hpq : p = q ∧ escapePoints ps ++ '"' :: s = escapePoints qs ++ '"' :: t := by
        simp only [escapePoints, List.append_assoc] at h
        by_cases hp : isSurrogate p = true <;> by_cases hq : isSurrogate q = true
        · rw [if_pos hp, if_pos hq] at h
          exact unitEscape_inj (isSurrogate_lt hp) (isSurrogate_lt hq) h
        · rw [if_pos hp, if_neg hq] at h
          exact absurd h (surrogate_ne_escapeChar hp hps)
        · rw [if_neg hp, if_pos hq] at h
          exact absurd h.symm (surrogate_ne_escapeChar hq hqs)
        · rw [if_neg hp, if_neg hq] at h
          obtain ⟨hc, hrest⟩ := escapeChar_inj h
          rw [Bool.not_eq_true] at hp hq
          refine ⟨?_, hrest⟩
          rw [← toNat_ofNat_of_bounded hp (hps.bounded p List.mem_cons_self), hc,
            toNat_ofNat_of_bounded hq (hqs.bounded q List.mem_cons_self)]
      obtain ⟨rfl, hrest⟩ := hpq
      obtain ⟨rfl, hst⟩ := ih hps.tail hqs.tail hrest
      exact ⟨rfl, hst⟩

/-- A quoted string that is no text is read in one way only. -/
theorem LoneStr.quoted_inj {a b : LoneStr} {s t : List Char} (h : a.quoted ++ s = b.quoted ++ t) : a = b ∧ s = t := by
  simp only [LoneStr.quoted, List.cons_append, List.append_assoc, List.nil_append, List.cons.injEq, true_and] at h
  obtain ⟨hpoints, hst⟩ := escapePoints_inj a.joined b.joined h
  obtain ⟨_, _, _⟩ := a
  cases hpoints
  exact ⟨rfl, hst⟩

/-- A text is not written as a string that is none. -/
theorem quoted_ne_lone {a : String} {b : LoneStr} {s t : List Char} : quoted a ++ s ≠ b.quoted ++ t := by
  intro h
  rw [quoted_eq_points] at h
  simp only [LoneStr.quoted, List.cons_append, List.append_assoc, List.nil_append, List.cons.injEq, true_and] at h
  obtain ⟨hpoints, -⟩ := escapePoints_inj (joined_ofString a) b.joined h
  obtain ⟨n, hn, hsurrogate⟩ := b.lone
  rw [← hpoints] at hn
  obtain ⟨c, -, rfl⟩ := List.mem_map.mp hn
  rw [not_isSurrogate] at hsurrogate
  cases hsurrogate

namespace Json

/-! ## Values written without brackets or quotes -/

/-- The text of a value that is neither a string, a list nor an object. -/
def atomText : Json → Option (List Char)
  | .null => some "null".toList
  | .bool b => some (if b then "true".toList else "false".toList)
  | .int n => some (intToken n).text
  | .float f => some (floatText f)
  | _ => none

theorem render_atom {j : Json} {cs : List Char} (h : atomText j = some cs) : render j = cs := by
  cases j <;> simp only [atomText, Option.some.injEq, reduceCtorEq] at h <;> rw [← h] <;> rfl

/-- The characters that can follow a value inside a list or an object. -/
def isStop (c : Char) : Bool := c == ',' || c == ']' || c == '\x7d'

/-- A number is not a word. -/
theorem number_ne_word {t : NumberToken} {word : List Char} {c : Char} (hm : c ∈ word)
    (hc : ¬(c.isDigit = true ∨ c ∈ ['-', '+', '.', 'e'])) : t.text ≠ word := by
  intro h
  exact hc (t.text_chars c (h ▸ hm))

theorem number_chars {t : NumberToken} {c : Char} (h : c ∈ t.text) : isStop c = false ∧ c ∉ ['"', '[', '\x7b'] := by
  rcases t.text_chars c h with hc | hc
  · have key : ∀ stop ∈ [',', ']', '\x7d', '"', '[', '\x7b'], c ≠ stop := by
      rintro stop hs rfl
      simp only [List.mem_cons, List.not_mem_nil, or_false] at hs
      rcases hs with rfl | rfl | rfl | rfl | rfl | rfl <;> cases hc
    simp only [List.mem_cons, List.not_mem_nil, or_false, forall_eq_or_imp, forall_eq] at key
    simp [isStop, key]
  · simp only [List.mem_cons, List.not_mem_nil, or_false] at hc
    rcases hc with rfl | rfl | rfl | rfl <;> decide

/-- The text of such a value has no character that could end it or open another kind of value. -/
theorem atomText_chars {j : Json} {cs : List Char} (h : atomText j = some cs) :
    cs ≠ [] ∧ ∀ c ∈ cs, isStop c = false ∧ c ∉ ['"', '[', '\x7b'] := by
  have number : ∀ t : NumberToken, t.text ≠ [] ∧ ∀ c ∈ t.text, isStop c = false ∧ c ∉ ['"', '[', '\x7b'] := by
    intro t
    refine ⟨?_, fun c hc => number_chars hc⟩
    simp [NumberToken.text, Nat.toDigits_ne_nil]
  cases j with
  | null => cases h; simp [isStop]
  | bool b => cases h; cases b <;> simp [isStop]
  | int n => cases h; exact number _
  | float f =>
    cases h
    cases f with
    | finite f => exact number _
    | inf neg => cases neg <;> simp [isStop, floatText]
    | nan => simp [isStop, floatText]
  | str s => cases h
  | lone s => cases h
  | arr items => cases h
  | obj entries => cases h

theorem floatText_inj {f g : PyFloat} (h : floatText f = floatText g) : f = g := by
  cases f with
  | finite f =>
    cases g with
    | finite g => rw [FloatRepr.token_inj (NumberToken.text_inj h)]
    | inf neg => exact (number_ne_word (c := 'I') (by cases neg <;> decide) (by decide) h).elim
    | nan => exact (number_ne_word (c := 'N') (by decide) (by decide) h).elim
  | inf neg =>
    cases g with
    | finite g => exact (number_ne_word (c := 'I') (by cases neg <;> decide) (by decide) h.symm).elim
    | inf neg' =>
      cases neg <;> cases neg' <;> first | rfl | exact absurd h (by decide)
    | nan => cases neg <;> exact absurd h (by decide)
  | nan =>
    cases g with
    | finite g => exact (number_ne_word (c := 'N') (by decide) (by decide) h.symm).elim
    | inf neg => cases neg <;> exact absurd h (by decide)
    | nan => rfl

/-- A whole number and a float are never written alike. -/
theorem int_ne_float (n : ℤ) (f : PyFloat) : (intToken n).text ≠ floatText f := by
  intro h
  cases f with
  | finite f =>
    have ht := NumberToken.text_inj h
    refine f.token_not_whole ?_
    rw [← ht]
    exact ⟨rfl, rfl⟩
  | inf neg => exact number_ne_word (c := 'I') (by cases neg <;> decide) (by decide) h
  | nan => exact number_ne_word (c := 'N') (by decide) (by decide) h

/-- A word is not the text of a float. -/
theorem word_ne_float {word : List Char} (hw : word ∈ ["null".toList, "true".toList, "false".toList]) (f : PyFloat) :
    word ≠ floatText f := by
  intro h
  simp only [List.mem_cons, List.not_mem_nil, or_false] at hw
  cases f with
  | finite f =>
    rcases hw with rfl | rfl | rfl
    · exact number_ne_word (c := 'n') (by decide) (by decide) h.symm
    · exact number_ne_word (c := 't') (by decide) (by decide) h.symm
    · exact number_ne_word (c := 'f') (by decide) (by decide) h.symm
  | inf neg => rcases hw with rfl | rfl | rfl <;> cases neg <;> exact absurd h (by decide)
  | nan => rcases hw with rfl | rfl | rfl <;> exact absurd h (by decide)

/-- A word is not the text of a whole number. -/
theorem word_ne_int {word : List Char} (hw : word ∈ ["null".toList, "true".toList, "false".toList]) (n : ℤ) :
    word ≠ (intToken n).text := by
  intro h
  simp only [List.mem_cons, List.not_mem_nil, or_false] at hw
  rcases hw with rfl | rfl | rfl
  · exact number_ne_word (c := 'n') (by decide) (by decide) h.symm
  · exact number_ne_word (c := 't') (by decide) (by decide) h.symm
  · exact number_ne_word (c := 'f') (by decide) (by decide) h.symm

theorem boolText_mem (b : Bool) :
    (if b then "true".toList else "false".toList) ∈ ["null".toList, "true".toList, "false".toList] := by
  cases b <;> decide

theorem atomText_inj {a b : Json} {cs : List Char} (ha : atomText a = some cs) (hb : atomText b = some cs) : a = b := by
  cases a <;> simp only [atomText, Option.some.injEq, reduceCtorEq] at ha <;>
    cases b <;> simp only [atomText, Option.some.injEq, reduceCtorEq] at hb <;> rw [← hb] at ha
  case null.bool v => cases v <;> exact absurd ha (by decide)
  case null.int n => exact (word_ne_int (by simp) n ha).elim
  case null.float f => exact (word_ne_float (by simp) f ha).elim
  case bool.null v => cases v <;> exact absurd ha (by decide)
  case bool.bool v v' => cases v <;> cases v' <;> first | rfl | exact absurd ha (by decide)
  case bool.int v n => exact (word_ne_int (boolText_mem v) n ha).elim
  case bool.float v f => exact (word_ne_float (boolText_mem v) f ha).elim
  case int.null n => exact (word_ne_int (by simp) n ha.symm).elim
  case int.bool n v => exact (word_ne_int (boolText_mem v) n ha.symm).elim
  case int.int n n' => rw [intToken_inj (NumberToken.text_inj ha)]
  case int.float n f => exact (int_ne_float n f ha).elim
  case float.null f => exact (word_ne_float (by simp) f ha.symm).elim
  case float.bool f v => exact (word_ne_float (boolText_mem v) f ha.symm).elim
  case float.int f n => exact (int_ne_float n f ha.symm).elim
  case float.float f f' => rw [floatText_inj ha]

/-! ## A text determines its value -/

/-- The character a string, a list or an object opens with. -/
def opening : Json → Option Char
  | .str _ | .lone _ => some '"'
  | .arr _ => some '['
  | .obj _ => some '\x7b'
  | _ => none

/-- A text opens as its value does, and never as if the list or object around it ended. -/
theorem render_head (j : Json) : ∃ c rest, render j = c :: rest ∧ isStop c = false ∧
    opening j = if c ∈ ['"', '[', '\x7b'] then some c else none := by
  have atom : ∀ {j : Json} {cs : List Char}, atomText j = some cs → opening j = none →
      ∃ c rest, render j = c :: rest ∧ isStop c = false ∧ opening j = if c ∈ ['"', '[', '\x7b'] then some c else none := by
    intro j cs h ho
    obtain ⟨hne, hall⟩ := atomText_chars h
    cases cs with
    | nil => exact absurd rfl hne
    | cons c rest =>
      obtain ⟨hs, hc⟩ := hall c (by simp)
      exact ⟨c, rest, render_atom h, hs, by rw [ho, if_neg hc]⟩
  cases j with
  | null => exact atom rfl rfl
  | bool b => exact atom rfl rfl
  | int n => exact atom rfl rfl
  | float f => exact atom rfl rfl
  | str s => exact ⟨'"', _, rfl, rfl, rfl⟩
  | lone s => exact ⟨'"', _, rfl, rfl, rfl⟩
  | arr items =>
    cases items with
    | nil => exact ⟨'[', _, rfl, rfl, rfl⟩
    | cons item items => exact ⟨'[', _, rfl, rfl, rfl⟩
  | obj entries =>
    cases entries with
    | nil => exact ⟨'\x7b', _, rfl, rfl, rfl⟩
    | cons entry entries => exact ⟨'\x7b', _, rfl, rfl, rfl⟩

/-- What follows a value: nothing, or a character that ends it. -/
def Ends (s : List Char) : Prop := ∀ c ∈ s.head?, isStop c = true

theorem renderItems_ends (items : List Json) (s : List Char) : Ends (renderItems items ++ s) := by
  cases items <;> simp [Ends, renderItems, isStop]

theorem renderEntries_ends (entries : List (String × Json)) (s : List Char) : Ends (renderEntries entries ++ s) := by
  cases entries <;> simp [Ends, renderEntries, isStop]

/-- Values with one text, whatever follows, open alike. -/
theorem opening_eq {a b : Json} {s t : List Char} (h : render a ++ s = render b ++ t) : opening a = opening b := by
  obtain ⟨c, rest, hr, -, ho⟩ := render_head a
  obtain ⟨c', rest', hr', -, ho'⟩ := render_head b
  rw [hr, hr', List.cons_append, List.cons_append, List.cons.injEq] at h
  rw [ho, ho', h.1]

/-- A text does not start with a closing bracket or brace. -/
theorem render_ne_stop {j : Json} {c : Char} {s t : List Char} (hc : isStop c = true) (h : render j ++ s = c :: t) :
    False := by
  obtain ⟨c', rest, hr, hs, -⟩ := render_head j
  rw [hr, List.cons_append, List.cons.injEq] at h
  rw [h.1, hc] at hs
  cases hs

/-- Two values without brackets or quotes that have one text are the same. -/
theorem atom_inj {a b : Json} {cs ds s t : List Char} (ha : atomText a = some cs) (hb : atomText b = some ds)
    (hs : Ends s) (ht : Ends t) (h : render a ++ s = render b ++ t) : a = b ∧ s = t := by
  rw [render_atom ha, render_atom hb] at h
  have hchars := (atomText_chars ha).2
  have hchars' := (atomText_chars hb).2
  obtain ⟨rfl, hst⟩ := span_unique (fun c => !isStop c) (fun c hc => by simp [(hchars c hc).1])
    (fun c hc => by simp [(hchars' c hc).1]) (fun c hc => by simp [hs c hc]) (fun c hc => by simp [ht c hc]) h
  exact ⟨atomText_inj ha hb, hst⟩

mutual

/-- A text determines its value, whatever follows it. -/
theorem render_inj : ∀ (a b : Json) {s t : List Char}, Ends s → Ends t → render a ++ s = render b ++ t → a = b ∧ s = t
  | .null, b, s, t, hs, ht, h => by
    have ho := opening_eq h
    cases b <;> first | exact atom_inj rfl rfl hs ht h | cases ho
  | .bool v, b, s, t, hs, ht, h => by
    have ho := opening_eq h
    cases b <;> first | exact atom_inj rfl rfl hs ht h | cases ho
  | .int n, b, s, t, hs, ht, h => by
    have ho := opening_eq h
    cases b <;> first | exact atom_inj rfl rfl hs ht h | cases ho
  | .float f, b, s, t, hs, ht, h => by
    have ho := opening_eq h
    cases b <;> first | exact atom_inj rfl rfl hs ht h | cases ho
  | .str x, b, s, t, _, _, h => by
    have ho := opening_eq h
    cases b <;> cases ho
    · obtain ⟨rfl, hst⟩ := quoted_inj h
      exact ⟨rfl, hst⟩
    · exact absurd h quoted_ne_lone
  | .lone x, b, s, t, _, _, h => by
    have ho := opening_eq h
    cases b <;> cases ho
    · exact absurd h.symm quoted_ne_lone
    · obtain ⟨rfl, hst⟩ := LoneStr.quoted_inj h
      exact ⟨rfl, hst⟩
  | .arr items, b, s, t, _, _, h => by
    have ho := opening_eq h
    cases b <;> cases ho
    rename_i items'
    match items, items' with
    | [], [] =>
      simp only [render, List.cons_append, List.nil_append, List.cons.injEq, true_and] at h
      exact ⟨rfl, h⟩
    | [], item' :: items' =>
      simp only [render, List.cons_append, List.nil_append, List.append_assoc, List.cons.injEq, true_and] at h
      exact (render_ne_stop rfl h.symm).elim
    | item :: items, [] =>
      simp only [render, List.cons_append, List.nil_append, List.append_assoc, List.cons.injEq, true_and] at h
      exact (render_ne_stop rfl h).elim
    | item :: items, item' :: items' =>
      simp only [render, List.cons_append, List.append_assoc, List.cons.injEq, true_and] at h
      obtain ⟨rfl, hrest⟩ := render_inj item item' (renderItems_ends _ _) (renderItems_ends _ _) h
      obtain ⟨rfl, hst⟩ := renderItems_inj items items' hrest
      exact ⟨rfl, hst⟩
  | .obj entries, b, s, t, _, _, h => by
    have ho := opening_eq h
    cases b <;> cases ho
    rename_i entries'
    match entries, entries' with
    | [], [] =>
      simp only [render, List.cons_append, List.nil_append, List.cons.injEq, true_and] at h
      exact ⟨rfl, h⟩
    | [], (key', item') :: entries' =>
      simp only [render, quoted, List.cons_append, List.nil_append, List.cons.injEq] at h
      exact absurd h.2.1 (by decide)
    | (key, item) :: entries, [] =>
      simp only [render, quoted, List.cons_append, List.nil_append, List.cons.injEq] at h
      exact absurd h.2.1 (by decide)
    | (key, item) :: entries, (key', item') :: entries' =>
      simp only [render, List.cons_append, List.append_assoc, List.cons.injEq, true_and] at h
      obtain ⟨rfl, hrest⟩ := quoted_inj h
      rw [List.cons.injEq] at hrest
      obtain ⟨rfl, htail⟩ := render_inj item item' (renderEntries_ends _ _) (renderEntries_ends _ _) hrest.2
      obtain ⟨rfl, hst⟩ := renderEntries_inj entries entries' htail
      exact ⟨rfl, hst⟩

theorem renderItems_inj : ∀ (xs ys : List Json) {s t : List Char},
    renderItems xs ++ s = renderItems ys ++ t → xs = ys ∧ s = t
  | [], [], s, t, h => by
    simp only [renderItems, List.cons_append, List.nil_append, List.cons.injEq, true_and] at h
    exact ⟨rfl, h⟩
  | [], y :: ys, s, t, h => by
    simp only [renderItems, List.cons_append, List.nil_append, List.cons.injEq] at h
    exact absurd h.1 (by decide)
  | x :: xs, [], s, t, h => by
    simp only [renderItems, List.cons_append, List.nil_append, List.cons.injEq] at h
    exact absurd h.1 (by decide)
  | x :: xs, y :: ys, s, t, h => by
    simp only [renderItems, List.cons_append, List.append_assoc, List.cons.injEq, true_and] at h
    obtain ⟨rfl, hrest⟩ := render_inj x y (renderItems_ends _ _) (renderItems_ends _ _) h
    obtain ⟨rfl, hst⟩ := renderItems_inj xs ys hrest
    exact ⟨rfl, hst⟩

theorem renderEntries_inj : ∀ (xs ys : List (String × Json)) {s t : List Char},
    renderEntries xs ++ s = renderEntries ys ++ t → xs = ys ∧ s = t
  | [], [], s, t, h => by
    simp only [renderEntries, List.cons_append, List.nil_append, List.cons.injEq, true_and] at h
    exact ⟨rfl, h⟩
  | [], (key', y) :: ys, s, t, h => by
    simp only [renderEntries, List.cons_append, List.nil_append, List.cons.injEq] at h
    exact absurd h.1 (by decide)
  | (key, x) :: xs, [], s, t, h => by
    simp only [renderEntries, List.cons_append, List.nil_append, List.cons.injEq] at h
    exact absurd h.1 (by decide)
  | (key, x) :: xs, (key', y) :: ys, s, t, h => by
    simp only [renderEntries, List.cons_append, List.append_assoc, List.cons.injEq, true_and] at h
    obtain ⟨rfl, hrest⟩ := quoted_inj h
    rw [List.cons.injEq] at hrest
    obtain ⟨rfl, htail⟩ := render_inj x y (renderEntries_ends _ _) (renderEntries_ends _ _) hrest.2
    obtain ⟨rfl, hst⟩ := renderEntries_inj xs ys htail
    exact ⟨rfl, hst⟩

end

/-- Two values have the same canonical text exactly when they are the same up to the order of their keys. -/
theorem canonical_eq_iff {a b : Json} : a.canonical = b.canonical ↔ a.sortKeys = b.sortKeys := by
  constructor
  · intro h
    have ht : render a.sortKeys = render b.sortKeys := String.ofList_inj.mp h
    have hnil : Ends [] := by simp [Ends]
    exact (render_inj _ _ hnil hnil (by rw [ht])).1
  · intro h
    rw [canonical, canonical, h]

end Json
