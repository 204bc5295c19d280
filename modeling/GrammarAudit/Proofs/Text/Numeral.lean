import GrammarAudit.Text.Numeral
import Mathlib.Data.Nat.Digits.Lemmas

/-!
# Hexadecimal numerals

A number is written in hexadecimal with the digits of base sixteen in lower case, the most
significant one first and without leading zeros, and a negative one after a minus sign. There is one
such text for each number, and one number for each such text.

- `natNumeral_eq_map_digits`: the digits of a numeral are those of the number.
- `IsHexNumeral`, `isHexNumeral_iff`: the hexadecimal numerals of natural numbers.
- `IsHexText`, `isHexText_iff`: the hexadecimal texts of integers.
- `intNumeral_hex_inj`: different integers have different texts.
-/

namespace GrammarAudit.Text

/-- The numeral of a number above zero has its digits, the last one first. -/
theorem natNumeral_eq_map_digits {base n : Nat} (hbase : 1 < base) (hn : 0 < n) :
    natNumeral base n = (Nat.digits base n).reverse.map Nat.digitChar := by
  induction n using Nat.strongRecOn with
  | ind n ih =>
    unfold natNumeral at ih ⊢
    rw [Nat.digits_def' hbase hn, List.reverse_cons, List.map_append, List.map_singleton]
    by_cases hlt : n < base
    · rw [Nat.toDigits_of_lt_base hlt, Nat.div_eq_of_lt hlt, Nat.mod_eq_of_lt hlt, Nat.digits_zero]
      rfl
    · have hle : base ≤ n := Nat.le_of_not_lt hlt
      rw [Nat.toDigits_of_base_le hbase hle,
        ih (n / base) (Nat.div_lt_self hn hbase) (Nat.div_pos hle (Nat.zero_lt_of_lt hbase))]

/-- Only zero is written with a leading zero. -/
theorem head?_natNumeral_ne {base n : Nat} (hbase : 1 < base) (hn : 0 < n) :
    (natNumeral base n).head? ≠ some '0' := by
  have hnil : Nat.digits base n ≠ [] := Nat.digits_ne_nil_iff_ne_zero.mpr (Nat.ne_of_gt hn)
  -- the first digit is the last one of the number, which is not zero
  rw [natNumeral_eq_map_digits hbase hn, List.head?_map, List.head?_reverse,
    List.getLast?_eq_some_getLast hnil]
  intro hzero
  have hlast := Nat.digitChar_eq_zero.mp (Option.some.inj hzero)
  exact Nat.getLast_digit_ne_zero base (Nat.ne_of_gt hn) hlast

/-! ## Natural numbers in hexadecimal -/

/-- The digits of base sixteen in lower case, in the order of their values. -/
def hexDigits : List Char := "0123456789abcdef".toList

/-- The value of hexadecimal digits, the most significant one first. -/
def hexValue (s : List Char) : Nat :=
  Nat.ofDigits 16 (s.reverse.map fun c => hexDigits.idxOf c)

/-- A text is a natural number written in hexadecimal: digits in lower case of that value, without
leading zeros. -/
structure IsHexNumeral (s : List Char) (n : Nat) : Prop where
  ne_nil : s ≠ []
  mem_digits : ∀ c ∈ s, c ∈ hexDigits
  value_eq : hexValue s = n
  leading : s.head? = some '0' → s = ['0']

/-- The digits are the characters that numbers below sixteen are written with. -/
theorem digitChar_hex {k : Nat} (h : k < 16) :
    Nat.digitChar k ∈ hexDigits ∧ hexDigits.idxOf (Nat.digitChar k) = k := by
  revert k
  decide

theorem digitChar_idxOf {c : Char} (h : c ∈ hexDigits) :
    Nat.digitChar (hexDigits.idxOf c) = c := by
  have hall : hexDigits.all fun c => Nat.digitChar (hexDigits.idxOf c) = c := by decide
  exact of_decide_eq_true (List.all_eq_true.mp hall c h)

theorem isHexNumeral_natNumeral (n : Nat) : IsHexNumeral (natNumeral 16 n) n := by
  rcases Nat.eq_zero_or_pos n with rfl | hn
  · have hzero : '0' ∈ hexDigits := by decide
    exact ⟨List.cons_ne_nil _ _, List.forall_mem_singleton.mpr hzero, rfl, fun _ => rfl⟩
  have hlt {d : Nat} (hd : d ∈ Nat.digits 16 n) : d < 16 := Nat.digits_lt_base (by decide) hd
  refine ⟨Nat.toDigits_ne_nil, ?mem_digits, ?value_eq, fun hzero =>
    absurd hzero (head?_natNumeral_ne (by decide) hn)⟩
  case mem_digits =>
    rw [natNumeral_eq_map_digits (by decide) hn]
    intro c hc
    obtain ⟨d, hd, rfl⟩ := List.mem_map.mp hc
    exact (digitChar_hex (hlt (List.mem_reverse.mp hd))).1
  case value_eq =>
    have hvalues : (Nat.digits 16 n).map (fun d => hexDigits.idxOf (Nat.digitChar d)) =
        Nat.digits 16 n := by
      refine (List.map_congr_left fun d hd => ?_).trans (List.map_id _)
      exact (digitChar_hex (hlt hd)).2
    rw [natNumeral_eq_map_digits (by decide) hn, hexValue, ← List.map_reverse,
      List.reverse_reverse, List.map_map]
    exact (congrArg (Nat.ofDigits 16) hvalues).trans (Nat.ofDigits_digits 16 n)

/-- There is one numeral for each number. -/
theorem isHexNumeral_iff {s : List Char} {n : Nat} : IsHexNumeral s n ↔ s = natNumeral 16 n := by
  constructor
  · rintro ⟨hnil, hmem, rfl, hleading⟩
    by_cases hzero : s.head? = some '0'
    · rw [hleading hzero]
      rfl
    -- without a leading zero, the values are the digits of the number
    have hdigits : Nat.digits 16 (hexValue s) = s.reverse.map fun c => hexDigits.idxOf c := by
      refine Nat.digits_ofDigits 16 (by decide) _ (fun d hd => ?_) fun hne hlast => ?_
      · obtain ⟨c, hc, rfl⟩ := List.mem_map.mp hd
        exact List.idxOf_lt_length_of_mem (hmem c (List.mem_reverse.mp hc))
      · rw [List.getLast_map, List.getLast_reverse] at hlast
        have hhead := digitChar_idxOf (hmem _ (List.head_mem hnil))
        rw [hlast] at hhead
        exact hzero ((List.head?_eq_some_head hnil).trans (congrArg some hhead.symm))
    have hpos : 0 < hexValue s := by
      refine Nat.pos_of_ne_zero fun h => hnil ?_
      rw [h, Nat.digits_zero] at hdigits
      simpa using hdigits.symm
    rw [natNumeral_eq_map_digits (by decide) hpos, hdigits, ← List.map_reverse,
      List.reverse_reverse, List.map_map]
    exact ((List.map_congr_left fun c hc => digitChar_idxOf (hmem c hc)).trans
      (List.map_id s)).symm
  · rintro rfl
    exact isHexNumeral_natNumeral n

/-! ## Integers -/

/-- A text is an integer written in hexadecimal: its size, after a minus sign if it is negative. -/
def IsHexText (s : List Char) (v : Int) : Prop :=
  ∃ digits, IsHexNumeral digits v.natAbs ∧ s = if v < 0 then '-' :: digits else digits

/-- There is one text for each integer. -/
theorem isHexText_iff {s : List Char} {v : Int} : IsHexText s v ↔ s = intNumeral 16 v := by
  have hnumeral : intNumeral 16 v =
      if v < 0 then '-' :: natNumeral 16 v.natAbs else natNumeral 16 v.natAbs := by
    cases v with
    | ofNat n => exact (if_neg (Int.not_lt.mpr (Int.natCast_nonneg n))).symm
    | negSucc n => exact (if_pos (Int.negSucc_lt_zero n)).symm
  unfold IsHexText
  rw [hnumeral]
  constructor
  · rintro ⟨digits, hdigits, rfl⟩
    rw [isHexNumeral_iff.mp hdigits]
  · intro hs
    exact ⟨_, isHexNumeral_natNumeral _, hs⟩

/-- There is one integer for each text. -/
theorem IsHexText.unique {s : List Char} {v w : Int} (hv : IsHexText s v) (hw : IsHexText s w) :
    v = w := by
  obtain ⟨digits, hdigits, hs⟩ := hv
  obtain ⟨digits', hdigits', hs'⟩ := hw
  have hminus {l : List Char} {n : Nat} (h : IsHexNumeral l n) (rest : List Char) :
      l ≠ '-' :: rest := by
    rintro rfl
    exact absurd (h.mem_digits '-' List.mem_cons_self) (by decide)
  have habs : digits = digits' → v.natAbs = w.natAbs := by
    rintro rfl
    exact hdigits.value_eq.symm.trans hdigits'.value_eq
  rw [hs] at hs'
  by_cases hneg : v < 0 <;> by_cases hneg' : w < 0
  · rw [if_pos hneg, if_pos hneg'] at hs'
    have := habs (List.cons.inj hs').2
    omega
  · rw [if_pos hneg, if_neg hneg'] at hs'
    exact absurd hs'.symm (hminus hdigits' digits)
  · rw [if_neg hneg, if_pos hneg'] at hs'
    exact absurd hs' (hminus hdigits digits')
  · rw [if_neg hneg, if_neg hneg'] at hs'
    have := habs hs'
    omega

/-- **Different integers have different texts.** -/
theorem intNumeral_hex_inj {v w : Int} : intNumeral 16 v = intNumeral 16 w ↔ v = w := by
  constructor
  · intro h
    exact IsHexText.unique (isHexText_iff.mpr rfl) (isHexText_iff.mpr h)
  · rintro rfl
    rfl

end GrammarAudit.Text
