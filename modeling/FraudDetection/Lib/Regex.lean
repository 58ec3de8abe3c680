import Mathlib.Data.List.Basic

/-!
# Patterns of anchors and repeated classes

A pattern is a list of items: an anchor, or a class of characters repeated between two counts. `run` matches it the way a backtracking
matcher does, from a position on, taking as many characters as it can before it tries fewer. `Matches` says what a match is, and the two
agree on whether there is one. As in Python, the end anchor also holds just before a newline that is the last character.
-/

namespace Regex

/-- An item of a pattern over characters `α`. -/
inductive Item (α : Type) where
  /-- `^`. -/
  | start
  /-- `$`. -/
  | finish
  /-- `[…]{least,most}`. -/
  | repeated (isIn : α → Bool) (least most : ℕ)

variable {α : Type}

/-! ## The matcher -/

/-- The end of a match of a repeated class followed by what `next` matches. -/
def runRepeated (isIn : α → Bool) (next : ℕ → List α → Option ℕ) : ℕ → ℕ → ℕ → List α → Option ℕ
  | least, most + 1, position, c :: text =>
    if isIn c then
      (runRepeated isIn next (least - 1) most (position + 1) text).or (if least = 0 then next position (c :: text) else none)
    else if least = 0 then next position (c :: text)
    else none
  | least, 0, position, text => if least = 0 then next position text else none
  | least, _ + 1, position, [] => if least = 0 then next position [] else none

/-- The end of the first match found, in the rest of a text from a position on. -/
def run [DecidableEq α] (newline : α) : List (Item α) → ℕ → List α → Option ℕ
  | [], position, _ => some position
  | .start :: items, position, text => if position = 0 then run newline items position text else none
  | .finish :: items, position, text => if text = [] ∨ text = [newline] then run newline items position text else none
  | .repeated isIn least most :: items, position, text => runRepeated isIn (run newline items) least most position text

/-- `pattern.match(text)` is not `None`. -/
def isMatch [DecidableEq α] (newline : α) (pattern : List (Item α)) (text : List α) : Bool := (run newline pattern 0 text).isSome

/-! ## What a match is -/

/-- The pattern matches, from the position on, an initial part of the text. -/
def Matches (newline : α) : List (Item α) → ℕ → List α → Prop
  | [], _, _ => True
  | .start :: items, position, text => position = 0 ∧ Matches newline items position text
  | .finish :: items, position, text => (text = [] ∨ text = [newline]) ∧ Matches newline items position text
  | .repeated isIn least most :: items, position, text =>
    ∃ taken rest, text = taken ++ rest ∧ least ≤ taken.length ∧ taken.length ≤ most ∧ (∀ c ∈ taken, isIn c = true) ∧
      Matches newline items (position + taken.length) rest

/-- A repetition finds a match when some number of characters within its counts leaves one to what follows. -/
theorem runRepeated_isSome (isIn : α → Bool) (next : ℕ → List α → Option ℕ) (most : ℕ) :
    ∀ (least position : ℕ) (text : List α), (runRepeated isIn next least most position text).isSome = true ↔
      ∃ taken rest, text = taken ++ rest ∧ least ≤ taken.length ∧ taken.length ≤ most ∧ (∀ c ∈ taken, isIn c = true) ∧
        (next (position + taken.length) rest).isSome = true := by
  -- taking nothing: what is left is the whole text
  have stop : ∀ (most least position : ℕ) (text : List α), (if least = 0 then next position text else none).isSome = true ↔
      ∃ rest, text = [] ++ rest ∧ least ≤ 0 ∧ 0 ≤ most ∧ (∀ c ∈ ([] : List α), isIn c = true) ∧
        (next (position + 0) rest).isSome = true := by
    intro most least position text
    constructor
    · intro h
      by_cases hl : least = 0
      · rw [if_pos hl] at h
        exact ⟨text, rfl, Nat.le_of_eq hl, Nat.zero_le _, fun c hc => absurd hc List.not_mem_nil, h⟩
      · rw [if_neg hl] at h
        cases h
    · rintro ⟨rest, hrest, hl, -, -, h⟩
      rw [if_pos (Nat.le_zero.mp hl), hrest]
      exact h
  induction most with
  | zero =>
    intro least position text
    rw [runRepeated, stop 0]
    constructor
    · rintro ⟨rest, h⟩
      exact ⟨[], rest, h⟩
    · rintro ⟨taken, rest, htext, hl, hm, hin, h⟩
      obtain rfl : taken = [] := List.length_eq_zero_iff.mp (Nat.le_zero.mp hm)
      exact ⟨rest, htext, hl, hm, hin, h⟩
  | succ most ih =>
    intro least position text
    cases text with
    | nil =>
      rw [runRepeated, stop (most + 1)]
      constructor
      · rintro ⟨rest, h⟩
        exact ⟨[], rest, h⟩
      · rintro ⟨taken, rest, htext, hl, hm, hin, h⟩
        obtain ⟨rfl, rfl⟩ := List.append_eq_nil_iff.mp htext.symm
        exact ⟨[], rfl, hl, hm, hin, h⟩
    | cons c text =>
      rw [runRepeated]
      by_cases hc : isIn c = true
      · rw [if_pos hc, Option.isSome_or, Bool.or_eq_true, ih, stop (most + 1)]
        constructor
        · rintro (⟨taken, rest, rfl, hl, hm, hin, h⟩ | ⟨rest, h⟩)
          · refine ⟨c :: taken, rest, rfl, ?_, ?_, List.forall_mem_cons.mpr ⟨hc, hin⟩, ?_⟩
            · rw [List.length_cons]
              omega
            · rw [List.length_cons]
              omega
            · rw [List.length_cons, ← Nat.add_assoc, Nat.add_right_comm]
              exact h
          · exact ⟨[], rest, h⟩
        · rintro ⟨taken, rest, htext, hl, hm, hin, h⟩
          cases taken with
          | nil => exact .inr ⟨rest, htext, hl, hm, hin, h⟩
          | cons d taken =>
            obtain ⟨rfl, rfl⟩ := List.cons.inj htext
            rw [List.length_cons] at hl hm h
            refine .inl ⟨taken, rest, rfl, by omega, by omega, (List.forall_mem_cons.mp hin).2, ?_⟩
            rw [Nat.add_right_comm, Nat.add_assoc]
            exact h
      · rw [if_neg hc, stop (most + 1)]
        constructor
        · rintro ⟨rest, h⟩
          exact ⟨[], rest, h⟩
        · rintro ⟨taken, rest, htext, hl, hm, hin, h⟩
          cases taken with
          | nil => exact ⟨rest, htext, hl, hm, hin, h⟩
          | cons d taken =>
            obtain ⟨rfl, -⟩ := List.cons.inj htext
            exact absurd (List.forall_mem_cons.mp hin).1 hc

/-- The matcher finds a match exactly when there is one. -/
theorem run_isSome [DecidableEq α] (newline : α) (items : List (Item α)) :
    ∀ (position : ℕ) (text : List α), (run newline items position text).isSome = true ↔ Matches newline items position text := by
  induction items with
  | nil =>
    intro position text
    exact iff_of_true rfl trivial
  | cons item items ih =>
    intro position text
    cases item with
    | start =>
      rw [run, Matches, ← ih]
      by_cases h : position = 0
      · rw [if_pos h, and_iff_right h]
      · rw [if_neg h]
        exact iff_of_false Bool.false_ne_true fun hm => h hm.1
    | finish =>
      rw [run, Matches, ← ih]
      by_cases h : text = [] ∨ text = [newline]
      · rw [if_pos h, and_iff_right h]
      · rw [if_neg h]
        exact iff_of_false Bool.false_ne_true fun hm => h hm.1
    | repeated isIn least most =>
      rw [run, Matches, runRepeated_isSome]
      simp only [ih]

/-! ## One class between anchors -/

/-- `^[…]{least,most}$` matches the texts of so many characters of the class, and the same texts with a newline after them. -/
theorem isMatch_anchored [DecidableEq α] (newline : α) (isIn : α → Bool) (least most : ℕ) (text : List α) :
    isMatch newline [.start, .repeated isIn least most, .finish] text = true ↔
      ∃ body, (text = body ∨ text = body ++ [newline]) ∧ least ≤ body.length ∧ body.length ≤ most ∧ ∀ c ∈ body, isIn c = true := by
  rw [isMatch, run_isSome]
  constructor
  · rintro ⟨-, taken, rest, rfl, hl, hm, hin, hrest, -⟩
    refine ⟨taken, ?_, hl, hm, hin⟩
    rcases hrest with rfl | rfl
    · exact .inl (List.append_nil _)
    · exact .inr rfl
  · rintro ⟨body, htext, hl, hm, hin⟩
    refine ⟨rfl, body, ?_⟩
    rcases htext with rfl | rfl
    · exact ⟨[], (List.append_nil _).symm, hl, hm, hin, .inl rfl, trivial⟩
    · exact ⟨[newline], rfl, hl, hm, hin, .inr rfl, trivial⟩

end Regex
