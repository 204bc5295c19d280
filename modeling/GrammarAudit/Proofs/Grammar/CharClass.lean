import GrammarAudit.Grammar.Identifier
import GrammarAudit.Text.WordChar

/-!
# Character classes

How the classes of characters that the scanners tell apart lie to each other: letters, identifier
characters, blanks and word characters.

- `toNat_of_isIdentChar`: identifier characters lie between `0` and `z`.
- `not_isBlank_of_isIdentChar`: no identifier character is a blank.
- `blankPoints`, `toNat_of_isBlank`: the blanks one by one.
- `not_isWordChar_of_isBlank`: no blank is a word character.
-/

namespace GrammarAudit.Grammar

open Text

theorem isIdentChar_of_isAlpha {c : Char} (h : c.isAlpha = true) : isIdentChar c = true := by
  simp [isIdentChar, Char.isAlphanum, h]

theorem isIdentChar_of_isIdentStart {c : Char} (h : isIdentStart c = true) :
    isIdentChar c = true := by
  simp only [isIdentStart, Bool.or_eq_true, decide_eq_true_eq] at h
  rcases h with h | rfl
  · exact isIdentChar_of_isAlpha h
  · rfl

/-- Identifier characters lie between `0` and `z`. -/
theorem toNat_of_isIdentChar {c : Char} (h : isIdentChar c = true) :
    48 ≤ c.toNat ∧ c.toNat ≤ 122 := by
  have hval : c.val.toNat = c.toNat := rfl
  have h : (decide (c.val ≥ 'A'.val ∧ c.val ≤ 'Z'.val) ||
      (c.val ≥ 'a'.val && c.val ≤ 'z'.val) || (c.val ≥ '0'.val && c.val ≤ '9'.val) ||
        c = '_') = true := h
  simp only [Bool.or_eq_true, Bool.and_eq_true, decide_eq_true_eq, ge_iff_le,
    UInt32.le_iff_toNat_le, hval] at h
  rcases h with ((h | h) | h) | rfl
  · exact ⟨Nat.le_trans (by decide) h.1, Nat.le_trans h.2 (by decide)⟩
  · exact ⟨Nat.le_trans (by decide) h.1, Nat.le_trans h.2 (by decide)⟩
  · exact ⟨h.1, Nat.le_trans h.2 (by decide)⟩
  · exact ⟨by decide, by decide⟩

/-- No blank lies between the space and the next-line control. -/
theorem not_isBlank_of_toNat {c : Char} (low : 33 ≤ c.toNat) (high : c.toNat ≤ 132) :
    isBlank c = false := by
  simp only [isBlank, InversionList.contains, blanks, InversionList.mem]
  rw [if_neg (by omega), if_neg (by omega), if_neg (by omega), if_neg (by omega),
    if_pos (by omega)]
  rfl

theorem not_isBlank_of_isIdentChar {c : Char} (h : isIdentChar c = true) : isBlank c = false := by
  obtain ⟨low, high⟩ := toNat_of_isIdentChar h
  exact not_isBlank_of_toNat (by omega) (by omega)

theorem not_isIdentChar_of_isBlank {c : Char} (h : isBlank c = true) : isIdentChar c = false := by
  refine Bool.eq_false_iff.mpr fun hc => ?_
  rw [not_isBlank_of_isIdentChar hc] at h
  cases h

/-! ## Blanks and word characters -/

theorem mem_inversionList_nil (inside : Bool) (n : Nat) :
    InversionList.mem inside n [] = inside := rfl

theorem mem_inversionList_cons_iff {inside : Bool} {n b : Nat} {rest : List Nat} :
    InversionList.mem inside n (b :: rest) = true ↔
      n < b ∧ inside = true ∨ b ≤ n ∧ InversionList.mem (!inside) n rest = true := by
  rw [InversionList.mem]
  by_cases h : n < b
  · simp [h, Nat.not_le.mpr h]
  · simp [h, Nat.not_lt.mp h]

/-- The code points of the blanks. -/
def blankPoints : List Nat :=
  List.range' 9 5 ++ List.range' 28 5 ++ [0x85, 0xa0, 0x1680] ++ List.range' 0x2000 11 ++
    [0x2028, 0x2029, 0x202f, 0x205f, 0x3000]

theorem toNat_of_isBlank {c : Char} (h : isBlank c = true) : c.toNat ∈ blankPoints := by
  simp only [isBlank, InversionList.contains, blanks, mem_inversionList_cons_iff,
    mem_inversionList_nil, Bool.not_true, Bool.not_false, Bool.false_eq_true, and_false, false_or,
    or_false, and_true] at h
  simp only [blankPoints, List.mem_append, List.mem_range'_1, List.mem_cons, List.not_mem_nil,
    or_false]
  omega

theorem not_isWordChar_of_isBlank {c : Char} (h : isBlank c = true) : isWordChar c = false := by
  have hpoints : ∀ n ∈ blankPoints,
      InversionList.mem false n lettersAndNumbers.bounds = false := by
    decide +kernel
  have hline : c ≠ '_' := by
    rintro rfl
    revert h
    decide
  rw [isWordChar, decide_eq_false hline, Bool.false_or]
  exact hpoints _ (toNat_of_isBlank h)

end GrammarAudit.Grammar
