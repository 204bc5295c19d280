import GrammarAudit.Finding.Metrics

/-!
# Canonical thresholds

A number and its canonical form have the same place in the order, and so have their halves. What
an analysis does with a threshold depends on these places only, so thresholds with one canonical
form grade every rule alike.

- `Number.level?_canonical`, `Number.level?_half_canonical`: the places in the order.
- `grade_canonical`, `gradeOverflows_canonical`: grading.
- `complexity_canonical`: the figures of all rules.
-/

namespace GrammarAudit

-- the power behind it is too large to be unfolded by a unifier
attribute [local irreducible] Double.unitsPerOne

namespace Double

@[simp] theorem natAbs_signed (negative : Bool) (units : Nat) :
    (signed negative units).natAbs = units := by
  cases negative <;> simp [signed]

theorem signed_mul (negative : Bool) (units k : Nat) :
    signed negative units * (k : Int) = signed negative (units * k) := by
  cases negative with
  | false => exact (Int.natCast_mul units k).symm
  | true => exact Int.neg_mul units k

/-- The sign of a signed multiple is the flag, except at zero. -/
theorem signed_neg_iff (negative : Bool) {units : Nat} (h : units ≠ 0) :
    decide (signed negative units < 0) = negative := by
  cases negative with
  | false => simp [signed]
  | true =>
    have hneg : -(units : Int) < 0 := by omega
    exact decide_eq_true hneg

theorem roundDiv_zero (den : Nat) : roundDiv 0 den = 0 := by
  unfold roundDiv
  rw [Nat.zero_div, Nat.zero_mod, if_pos]
  rcases Nat.eq_zero_or_pos den with rfl | h
  · exact .inr ⟨rfl, rfl⟩
  · exact .inl h

/-- A quotient of zero is a zero with the given sign. -/
theorem ofRatio_zero (negative : Bool) (den : Nat) :
    ofRatio negative 0 den = finite negative 0 := by
  have hbound : 0 < unitsBound := by decide +kernel
  show (if roundDiv 0 (den * spacing (0 / den)) * spacing (0 / den) < unitsBound then
    finite negative (roundDiv 0 (den * spacing (0 / den)) * spacing (0 / den))
    else infinite negative) = finite negative 0
  rw [roundDiv_zero, Nat.zero_mul, if_pos hbound]

end Double

namespace Number

/-- A finite number is its own canonical form unless it is a whole number. -/
theorem canonical_finite_cases (negative : Bool) (units : Nat) :
    (real (.finite negative units)).canonical = real (.finite negative units) ∨
      ∃ k, units = k * Double.unitsPerOne ∧
        (real (.finite negative units)).canonical = int (Double.signed negative k) := by
  by_cases h : units % Double.unitsPerOne = 0
  · exact .inr ⟨units / Double.unitsPerOne,
      (Nat.div_mul_cancel (Nat.dvd_of_mod_eq_zero h)).symm, if_pos h⟩
  · exact .inl (if_neg h)

/-- The canonical form has the same place in the order. -/
theorem level?_canonical (n : Number) : n.canonical.level? = n.level? := by
  rcases n with n | ⟨s, u⟩ | s | _
  · rfl
  · rcases canonical_finite_cases s u with h | ⟨k, hu, h⟩
    · rw [h]
    · subst hu
      rw [h]
      simp only [level?, Double.signed_mul]
  · rfl
  · rfl

/-- Halves of a number and its canonical form have the same place in the order; they differ at
most in the sign of a zero. -/
theorem level?_half_canonical (n : Number) : n.canonical.half.level? = n.half.level? := by
  rcases n with n | ⟨s, u⟩ | s | _
  · rfl
  · rcases canonical_finite_cases s u with h | ⟨k, hu, h⟩
    · rw [h]
    · subst hu
      rw [h]
      simp only [half, Double.half, Double.natAbs_signed]
      by_cases hk : k = 0
      · subst hk
        rw [Nat.zero_mul, Double.ofRatio_zero, Double.ofRatio_zero]
        simp only [level?]
        cases s <;> simp [Double.signed]
      · rw [Double.signed_neg_iff s hk]
  · rfl
  · rfl

/-- The order looks at the places only. -/
theorem le_congr_left {m n : Number} (h : m.level? = n.level?) (k : Number) : m.le k = n.le k := by
  unfold le
  rw [h]

theorem isFinite_congr {m n : Number} (h : m.level? = n.level?) : m.isFinite = n.isFinite := by
  unfold isFinite
  rw [h]

end Number

/-! ## Grading -/

/-- Thresholds in canonical form. -/
def Thresholds.canonical (t : Thresholds) : Thresholds :=
  ⟨t.high.canonical, t.critical.canonical⟩

theorem halfOverflows_canonical (n : Number) : halfOverflows n.canonical = halfOverflows n := by
  unfold halfOverflows
  rw [Number.isFinite_congr (Number.level?_canonical n),
    Number.isFinite_congr (Number.level?_half_canonical n)]

theorem grade_canonical (t : Thresholds) : grade t.canonical = grade t := by
  funext value
  unfold grade Thresholds.canonical
  rw [Number.le_congr_left (Number.level?_canonical t.critical),
    Number.le_congr_left (Number.level?_canonical t.high),
    Number.le_congr_left (Number.level?_half_canonical t.high)]

theorem gradeOverflows_canonical (t : Thresholds) :
    gradeOverflows t.canonical = gradeOverflows t := by
  funext value
  unfold gradeOverflows Thresholds.canonical
  rw [Number.le_congr_left (Number.level?_canonical t.critical),
    Number.le_congr_left (Number.level?_canonical t.high), halfOverflows_canonical]

theorem metrics_canonical (g : Graph) (t : Thresholds) :
    Metrics.ofRule g t.canonical = Metrics.ofRule g t := by
  funext rule
  unfold Metrics.ofRule
  rw [grade_canonical]

/-- The figures of all rules are the same for thresholds of one canonical form. -/
theorem complexity_canonical (rules : List Rule) (g : Graph) (t : Thresholds) :
    complexity rules g t.canonical = complexity rules g t := by
  unfold complexity
  rw [metrics_canonical]

theorem complexityOverflows_canonical (rules : List Rule) (g : Graph) (t : Thresholds) :
    complexityOverflows rules g t.canonical = complexityOverflows rules g t := by
  unfold complexityOverflows
  rw [complexity_canonical, gradeOverflows_canonical]

end GrammarAudit
