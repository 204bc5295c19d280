import GrammarAudit.Proofs.Number.Canonical
import Mathlib.Algebra.Group.Nat.Defs

/-!
# Rounding keeps the order

Numbers are compared by their exact values, but a quotient is rounded to a floating-point number.
Rounding never turns two quotients of one denominator around: between two of different magnitude
there is a power of two, and quotients on either side of it stay there; at one magnitude the rounded
quotients have one denominator.

- `Number.le_trans`, `Number.lt_of_lt_of_le`: the order of the exact values is transitive.
- `Double.roundDiv_mono`, `Double.roundedUnits_mono`: rounding keeps the order of magnitudes.
- `Number.roundedLevel`, `Number.roundedLevel_mono`: the place in the order of a rounded quotient.
-/

namespace GrammarAudit

-- the powers behind them are too large to be unfolded by a unifier
attribute [local irreducible] Double.unitsPerOne Double.unitsBound

/-! ## Places in the order -/

namespace Number

theorem levelLe_iff {x y : Int × Int} :
    levelLe x y = true ↔ x.1 < y.1 ∨ x.1 = y.1 ∧ x.2 ≤ y.2 := by
  simp only [levelLe, Bool.or_eq_true, Bool.and_eq_true, decide_eq_true_eq]

/-- One number is at most another when both have a place in the order and these are in order. -/
theorem le_iff {a b : Number} :
    a.le b = true ↔ ∃ x y, a.level? = some x ∧ b.level? = some y ∧ levelLe x y = true := by
  unfold le
  cases a.level? with
  | none => simp
  | some x =>
    cases b.level? with
    | none => simp
    | some y => simp

/-- Only finite numbers differ in more than the sign of an infinity. -/
theorem infinite_of_level? {a : Number} {x : Int × Int} (h : a.level? = some x) (hx : x.1 ≠ 0) :
    x = (1, 0) ∨ x = (-1, 0) := by
  rcases a with n | ⟨s, u⟩ | s | _
  · cases h
    exact absurd rfl hx
  · cases h
    exact absurd rfl hx
  · cases h
    cases s
    · exact .inl rfl
    · exact .inr rfl
  · cases h

theorem le_trans {a b c : Number} (hab : a.le b = true) (hbc : b.le c = true) :
    a.le c = true := by
  obtain ⟨x, y, hx, hy, hxy⟩ := le_iff.mp hab
  obtain ⟨y', z, hy', hz, hyz⟩ := le_iff.mp hbc
  obtain rfl : y = y' := Option.some.inj (hy.symm.trans hy')
  refine le_iff.mpr ⟨x, z, hx, hz, ?_⟩
  rw [levelLe_iff] at hxy hyz ⊢
  omega

theorem lt_iff {a b : Number} :
    a.lt b = true ↔ ∃ x y, a.level? = some x ∧ b.level? = some y ∧ ¬levelLe y x = true := by
  unfold lt
  cases a.level? with
  | none => simp
  | some x =>
    cases b.level? with
    | none => simp
    | some y => simp

theorem lt_of_lt_of_le {a b c : Number} (hab : a.lt b = true) (hbc : b.le c = true) :
    a.lt c = true := by
  obtain ⟨x, y, hx, hy, hxy⟩ := lt_iff.mp hab
  obtain ⟨y', z, hy', hz, hyz⟩ := le_iff.mp hbc
  obtain rfl : y = y' := Option.some.inj (hy.symm.trans hy')
  refine lt_iff.mpr ⟨x, z, hx, hz, ?_⟩
  rw [levelLe_iff] at hxy hyz ⊢
  omega

end Number

/-! ## Rounding -/

namespace Double

theorem unitsPerOne_pos : 0 < unitsPerOne := by decide +kernel

theorem roundDiv_mono {m n : Nat} (den : Nat) (h : m ≤ n) : roundDiv m den ≤ roundDiv n den := by
  have hquotient : m / den ≤ n / den := Nat.div_le_div_right h
  have hup (k : Nat) : k / den ≤ roundDiv k den ∧ roundDiv k den ≤ k / den + 1 := by
    unfold roundDiv
    dsimp only
    split <;> omega
  rcases Nat.lt_or_eq_of_le hquotient with hlt | heq
  · have hm := (hup m).2
    have hn := (hup n).1
    omega
  · -- one quotient: the larger remainder is rounded up if the smaller one is
    have hm := Nat.div_add_mod m den
    have hn := Nat.div_add_mod n den
    unfold roundDiv
    rw [heq] at hm ⊢
    have hremainder : m % den ≤ n % den := by omega
    dsimp only
    split
    · split <;> omega
    · split <;> omega

/-- A multiple of the denominator is not rounded. -/
theorem roundDiv_mul_self (k : Nat) {den : Nat} (h : 0 < den) : roundDiv (k * den) den = k := by
  unfold roundDiv
  rw [Nat.mul_div_cancel k h, Nat.mul_mod_left, if_pos (.inl (by omega))]

/-- The units of the number nearest to a quotient. -/
def roundedUnits (num den : Nat) : Nat :=
  roundDiv num (den * spacing (num / den)) * spacing (num / den)

theorem ofRatio_eq_roundedUnits (negative : Bool) (num den : Nat) :
    ofRatio negative num den =
      if roundedUnits num den < unitsBound then finite negative (roundedUnits num den)
      else infinite negative := rfl

/-- The gap at a magnitude divides every power of two from that magnitude on. -/
theorem exists_mul_spacing {units k : Nat} (h : units.log2 ≤ k) :
    ∃ c, 2 ^ k = c * spacing units ∧ 0 < spacing units := by
  refine ⟨2 ^ (k - (units.log2 + 1 - 53)), ?_, ?_⟩
  · show 2 ^ k = 2 ^ (k - (units.log2 + 1 - 53)) * 2 ^ (units.log2 + 1 - 53)
    rw [← Nat.pow_add]
    congr 1
    omega
  · show 0 < 2 ^ (units.log2 + 1 - 53)
    exact Nat.two_pow_pos _

/-- Quotients below a power of two are not rounded above it. -/
theorem roundedUnits_le {num den k : Nat} (hden : 0 < den) (h : num / den < 2 ^ k) :
    roundedUnits num den ≤ 2 ^ k := by
  have hlog : (num / den).log2 ≤ k := by
    by_cases hzero : num / den = 0
    · rw [hzero]
      exact Nat.zero_le k
    · exact Nat.le_of_lt ((Nat.log2_lt hzero).mpr h)
  obtain ⟨c, hc, hpos⟩ := exists_mul_spacing hlog
  have hround : roundDiv num (den * spacing (num / den)) ≤ c := by
    rw [← roundDiv_mul_self c (Nat.mul_pos hden hpos)]
    apply roundDiv_mono
    rw [Nat.mul_left_comm, ← hc, Nat.mul_comm]
    exact Nat.le_of_lt ((Nat.div_lt_iff_lt_mul hden).mp h)
  show roundDiv num (den * spacing (num / den)) * spacing (num / den) ≤ 2 ^ k
  rw [hc]
  exact Nat.mul_le_mul_right _ hround

/-- Quotients from a power of two on are not rounded below it. -/
theorem le_roundedUnits {num den k : Nat} (hden : 0 < den) (hlog : (num / den).log2 = k)
    (h : 2 ^ k ≤ num / den) : 2 ^ k ≤ roundedUnits num den := by
  obtain ⟨c, hc, hpos⟩ := exists_mul_spacing (Nat.le_of_eq hlog)
  have hround : c ≤ roundDiv num (den * spacing (num / den)) := by
    rw [← roundDiv_mul_self c (Nat.mul_pos hden hpos)]
    apply roundDiv_mono
    rw [Nat.mul_left_comm, ← hc, Nat.mul_comm]
    exact (Nat.le_div_iff_mul_le hden).mp h
  show 2 ^ k ≤ roundDiv num (den * spacing (num / den)) * spacing (num / den)
  rw [hc]
  exact Nat.mul_le_mul_right _ hround

/-- **Rounded quotients are ordered like the exact ones.** -/
theorem roundedUnits_mono {m n den : Nat} (hden : 0 < den) (h : m ≤ n) :
    roundedUnits m den ≤ roundedUnits n den := by
  have hquotient : m / den ≤ n / den := Nat.div_le_div_right h
  by_cases hlog : (m / den).log2 = (n / den).log2
  · -- one magnitude: one gap, so one denominator
    have hgap : spacing (m / den) = spacing (n / den) := by rw [spacing, spacing, hlog]
    unfold roundedUnits
    rw [hgap]
    exact Nat.mul_le_mul_right _ (roundDiv_mono _ h)
  · have hn : n / den ≠ 0 := by
      intro hzero
      have hmzero : m / den = 0 := Nat.le_zero.mp (hzero ▸ hquotient)
      rw [hzero, hmzero] at hlog
      exact hlog rfl
    have hpower : 2 ^ (n / den).log2 ≤ n / den := Nat.log2_self_le hn
    have hbelow : m / den < 2 ^ (n / den).log2 := by
      by_cases hm : m / den = 0
      · rw [hm]
        exact Nat.two_pow_pos _
      · have hle : 2 ^ (m / den).log2 ≤ n / den :=
          Nat.le_trans (Nat.log2_self_le hm) hquotient
        have hlt : (m / den).log2 < (n / den).log2 :=
          Nat.lt_of_le_of_ne ((Nat.le_log2 hn).mpr hle) hlog
        exact (Nat.log2_lt hm).mp hlt
    exact Nat.le_trans (roundedUnits_le hden hbelow) (le_roundedUnits hden rfl hpower)

end Double

/-! ## The place of a rounded quotient -/

namespace Number

/-- The place in the order of the number nearest to a quotient. -/
def roundedLevel (den : Nat) (num : Int) : Int × Int :=
  if Double.roundedUnits num.natAbs den < Double.unitsBound then
    (0, Double.signed (num < 0) (Double.roundedUnits num.natAbs den))
  else (if num < 0 then -1 else 1, 0)

theorem roundedLevel_eq (den : Nat) (num : Int) :
    roundedLevel den num =
      if Double.roundedUnits num.natAbs den < Double.unitsBound then
        (0, if num < 0 then -(Double.roundedUnits num.natAbs den : Int)
          else Double.roundedUnits num.natAbs den)
      else (if num < 0 then -1 else 1, 0) := by
  simp only [roundedLevel, Double.signed, decide_eq_true_eq]

theorem level?_ofRatio (den : Nat) (num : Int) :
    (real (.ofRatio (num < 0) num.natAbs den)).level? = some (roundedLevel den num) := by
  rw [Double.ofRatio_eq_roundedUnits, roundedLevel]
  split
  · rfl
  · simp only [level?, decide_eq_true_eq]

/-- The sign of a zero does not change the place of a quotient. -/
theorem level?_ofRatio_signed (den : Nat) (negative : Bool) (units : Nat) :
    (real (.ofRatio negative units den)).level? =
      some (roundedLevel den (Double.signed negative units)) := by
  rw [← level?_ofRatio, Double.natAbs_signed]
  by_cases hzero : units = 0
  · subst hzero
    rw [Double.ofRatio_zero, Double.ofRatio_zero]
    cases negative <;> simp [level?, Double.signed]
  · rw [Double.signed_neg_iff negative hzero]

theorem level?_ofRatio_int (den : Nat) (n : Int) :
    (real (.ofRatio (n < 0) (n.natAbs * Double.unitsPerOne) den)).level? =
      some (roundedLevel den (n * Double.unitsPerOne)) := by
  have hpos := Double.unitsPerOne_pos
  have hsign : (n * Double.unitsPerOne < 0) = (n < 0) :=
    propext ⟨fun h => Int.neg_of_mul_neg_left h (by omega),
      fun h => Int.mul_neg_of_neg_of_pos h (by omega)⟩
  rw [← level?_ofRatio, Int.natAbs_mul, Int.natAbs_natCast]
  simp only [hsign]

/-- A rounded quotient is not beyond the infinities. -/
theorem roundedLevel_between (den : Nat) (num : Int) :
    levelLe (-1, 0) (roundedLevel den num) = true ∧
      levelLe (roundedLevel den num) (1, 0) = true := by
  rw [levelLe_iff, levelLe_iff, roundedLevel]
  split
  · have hbelow : (-1 : Int) < 0 := by decide
    have habove : (0 : Int) < 1 := by decide
    exact ⟨.inl hbelow, .inl habove⟩
  · split
    · exact ⟨.inr ⟨rfl, Int.le_refl 0⟩, .inl (by decide)⟩
    · exact ⟨.inl (by decide), .inr ⟨rfl, Int.le_refl 0⟩⟩

/-- Rounded quotients of one denominator have their places in order. -/
theorem roundedLevel_mono {den : Nat} (hden : 0 < den) {k l : Int} (h : k ≤ l) :
    levelLe (roundedLevel den k) (roundedLevel den l) = true := by
  -- below zero the magnitudes are the other way round
  have hpositive : 0 ≤ k →
      Double.roundedUnits k.natAbs den ≤ Double.roundedUnits l.natAbs den :=
    fun _ => Double.roundedUnits_mono hden (by omega)
  have hnegative : l < 0 →
      Double.roundedUnits l.natAbs den ≤ Double.roundedUnits k.natAbs den :=
    fun _ => Double.roundedUnits_mono hden (by omega)
  rw [levelLe_iff, roundedLevel_eq, roundedLevel_eq]
  generalize Double.roundedUnits k.natAbs den = m at *
  generalize Double.roundedUnits l.natAbs den = n at *
  by_cases hm : m < Double.unitsBound
  · by_cases hn : n < Double.unitsBound
    · rw [if_pos hm, if_pos hn]
      refine .inr ⟨rfl, ?_⟩
      dsimp only
      split <;> split <;> omega
    · rw [if_pos hm, if_neg hn]
      dsimp only
      split <;> omega
  · by_cases hn : n < Double.unitsBound
    · rw [if_neg hm, if_pos hn]
      dsimp only
      split <;> omega
    · rw [if_neg hm, if_neg hn]
      dsimp only
      split <;> split <;> omega

end Number

end GrammarAudit
