import GrammarAudit.Proofs.Number.Half

/-!
# Rounding to the format

A number of the format is a whole multiple of the distance between its neighbours. Its basin was
chosen as the quotients that are at most half that distance away, and the quotients in it are
indeed the ones that round to the number. Just above a power of two the lower neighbour is half as
far, and the quotients below the power are rounded on the finer grid there.

- `Double.InFormat`, `Number.InFormat`: the finite multiples that the format has.
- `Double.Near`, `Double.roundDiv_eq_of_near`: a quotient rounds to the whole number at most a half
  away, of two to the even one.
- `Double.ofRatio_of_holds`: the quotients in the basin of a number round to it.
- `Double.inFormat_ofRatio`: whatever is rounded is a number of the format.
-/

namespace GrammarAudit

namespace Double

-- the powers behind them are too large to be unfolded by a unifier
attribute [local irreducible] unitsPerOne unitsBound

/-- The numbers of the format: finite ones are multiples of the distance between neighbours. -/
def InFormat : Double → Prop
  | finite _ units => spacing units ∣ units ∧ units < unitsBound
  | infinite _ => True
  | nan => True

instance : DecidablePred InFormat
  | finite _ units => inferInstanceAs (Decidable (spacing units ∣ units ∧ units < unitsBound))
  | infinite _ => isTrue trivial
  | nan => isTrue trivial

/-! ## Whole numbers -/

/-- A quotient is at most a half away from a whole number, and less than that if the number is
odd. -/
structure Near (m num den : Nat) : Prop where
  low : 2 * (m * den) ≤ 2 * num + den
  high : 2 * num ≤ 2 * (m * den) + den
  odd : m % 2 = 1 → 2 * (m * den) < 2 * num + den ∧ 2 * num < 2 * (m * den) + den

/-- A quotient rounds to the whole number that it is near to. -/
theorem roundDiv_eq_of_near {m num den : Nat} (hden : 0 < den) (h : Near m num den) :
    roundDiv num den = m := by
  obtain ⟨hlow, hhigh, hodd⟩ := h
  have hnum := Nat.div_add_mod' num den
  have hrest := Nat.mod_lt num hden
  unfold roundDiv
  generalize num / den = q at *
  generalize num % den = r at *
  have hle : q ≤ m := by
    refine Nat.le_of_not_lt fun hlt => ?_
    have hmul : (m + 1) * den ≤ q * den := Nat.mul_le_mul_right den hlt
    rw [Nat.add_one_mul] at hmul
    omega
  have hge : m ≤ q + 1 := by
    refine Nat.le_of_not_lt fun hlt => ?_
    have hmul : (q + 2) * den ≤ m * den := Nat.mul_le_mul_right den hlt
    rw [Nat.add_mul] at hmul
    omega
  have hcases : m = q ∨ m = q + 1 := by omega
  rcases hcases with rfl | rfl
  · have hdown : 2 * r < den ∨ 2 * r = den ∧ m % 2 = 0 := by omega
    exact if_pos hdown
  · rw [Nat.add_one_mul q den] at hlow hhigh hodd
    have hup : ¬(2 * r < den ∨ 2 * r = den ∧ q % 2 = 0) := by omega
    exact if_neg hup

/-! ## The distance between neighbours -/

/-- The numbers of 53 binary digits in multiples of a power of two are that power apart; below
them the smallest distance is one. -/
theorem spacing_eq {n k : Nat} (hlt : n < 2 ^ (k + 53)) (hk : k = 0 ∨ 2 ^ (k + 52) ≤ n) :
    spacing n = 2 ^ k := by
  show 2 ^ (n.log2 + 1 - 53) = 2 ^ k
  congr 1
  rcases Nat.eq_zero_or_pos n with rfl | hpos
  · have hpow : 0 < 2 ^ (k + 52) := Nat.two_pow_pos _
    rw [Nat.log2_zero]
    omega
  · have hne : n ≠ 0 := by omega
    have hlog : n.log2 < k + 53 := (Nat.log2_lt hne).mpr hlt
    rcases hk with rfl | hle
    · omega
    · have hlow : k + 52 ≤ n.log2 := (Nat.le_log2 hne).mpr hle
      omega

/-- A multiple of the distance between its neighbours has 53 binary digits besides that factor,
the leading one of them set unless the distance is the smallest. -/
theorem exists_of_spacing_dvd {units : Nat} (hpos : 0 < units) (h : spacing units ∣ units) :
    ∃ m k, units = m * 2 ^ k ∧ spacing units = 2 ^ k ∧ 0 < m ∧ m < 2 ^ 53 ∧
      (k = 0 ∨ 2 ^ 52 ≤ m) := by
  obtain ⟨m, hm⟩ := h
  rw [Nat.mul_comm] at hm
  have hspacing : spacing units = 2 ^ (units.log2 + 1 - 53) := rfl
  have hlt : units < 2 ^ (units.log2 + 1) := Nat.lt_log2_self
  have hle : 2 ^ units.log2 ≤ units := Nat.log2_self_le (by omega)
  rw [hspacing] at hm ⊢
  generalize units.log2 = e at *
  have hfactor : 0 < 2 ^ (e + 1 - 53) := Nat.two_pow_pos _
  have hmpos : 0 < m := by
    refine Nat.pos_of_ne_zero fun hzero => ?_
    rw [hzero, Nat.zero_mul] at hm
    omega
  have hbound : 2 ^ (e + 1) ≤ 2 ^ 53 * 2 ^ (e + 1 - 53) := by
    rw [← Nat.pow_add]
    exact Nat.pow_le_pow_right Nat.two_pos (by omega)
  have hmlt : m < 2 ^ 53 := by
    refine Nat.lt_of_mul_lt_mul_right (a := 2 ^ (e + 1 - 53)) ?_
    rw [← hm]
    exact Nat.lt_of_lt_of_le hlt hbound
  refine ⟨m, e + 1 - 53, hm, rfl, hmpos, hmlt, ?_⟩
  by_cases hzero : e + 1 - 53 = 0
  · exact .inl hzero
  · have hpower : 2 ^ 52 * 2 ^ (e + 1 - 53) = 2 ^ e := by
      rw [← Nat.pow_add]
      congr 1
      omega
    rw [← hpower, hm] at hle
    exact .inr (Nat.le_of_mul_le_mul_right hle hfactor)

/-! ## Quotients -/

theorem ofRatio_eq (negative : Bool) (num den : Nat) :
    ofRatio negative num den =
      if roundDiv num (den * spacing (num / den)) * spacing (num / den) < unitsBound then
        finite negative (roundDiv num (den * spacing (num / den)) * spacing (num / den))
      else infinite negative := rfl

/-- Multiplying both parts of a quotient does not change the number nearest to it. -/
theorem ofRatio_mul_mul (negative : Bool) (num den : Nat) {c : Nat} (hc : 0 < c) :
    ofRatio negative (num * c) (den * c) = ofRatio negative num den := by
  have hround (d : Nat) : roundDiv (num * c) (d * c) = roundDiv num d := by
    have htwice : 2 * (num % d * c) = 2 * (num % d) * c := (Nat.mul_assoc ..).symm
    unfold roundDiv
    rw [Nat.mul_div_mul_right num d hc, Nat.mul_mod_mul_right]
    dsimp only
    rw [htwice]
    simp only [Nat.mul_lt_mul_right hc, Nat.mul_left_inj (Nat.ne_of_gt hc)]
  rw [ofRatio_eq, ofRatio_eq, Nat.mul_div_mul_right num den hc, Nat.mul_right_comm den c, hround]

/-- A quotient rounds to the multiple of its grid that is at most half a step away. -/
theorem ofRatio_of_near {negative : Bool} {m gap num den : Nat} (hden : 0 < den) (hgap : 0 < gap)
    (hspacing : spacing (num / den) = gap) (hbound : m * gap < unitsBound)
    (h : Near m num (den * gap)) :
    ofRatio negative num den = finite negative (m * gap) := by
  have hround : roundDiv num (den * gap) = m := roundDiv_eq_of_near (Nat.mul_pos hden hgap) h
  rw [ofRatio_eq, hspacing, hround]
  exact if_pos hbound

/-! ## The basin of a number -/

theorem Basin.holds_iff {b : Basin} {num den : Nat} :
    b.holds num den = true ↔ b.low * den ≤ num ∧ num ≤ b.high * den ∧
      (b.closed = false → b.low * den < num ∧ num < b.high * den) := by
  unfold Basin.holds
  cases b.closed with
  | true => simp
  | false =>
    simp only [Bool.false_eq_true, if_false, Bool.and_eq_true, decide_eq_true_eq, true_implies]
    omega

/-- A point in the basin of `m` steps of a grid is near to it, and at most a quarter of a step below
it where the finer grid begins. -/
theorem near_of_holds {m k num den : Nat} (hspacing : spacing (m * 2 ^ k) = 2 ^ k)
    (h : (basin (m * 2 ^ k)).holds (4 * num) den = true) :
    Near m num (den * 2 ^ k) ∧
      (m = 2 ^ 52 → k ≠ 0 → 4 * (m * (den * 2 ^ k)) ≤ 4 * num + den * 2 ^ k) := by
  have hdiv : m * 2 ^ k / 2 ^ k = m := Nat.mul_div_cancel m (Nat.two_pow_pos k)
  have hfine : 1 < 2 ^ k ↔ k ≠ 0 := Nat.one_lt_two_pow_iff
  have hpower : Nat.pow 2 52 = 2 ^ 52 := rfl
  obtain ⟨hlow, hhigh, hopen⟩ := Basin.holds_iff.mp h
  have hmid : 4 * (m * 2 ^ k) * den = 4 * (m * (den * 2 ^ k)) := by
    rw [Nat.mul_assoc, Nat.mul_assoc, Nat.mul_comm (2 ^ k) den]
  have hstep : 2 * 2 ^ k * den = 2 * (den * 2 ^ k) := by
    rw [Nat.mul_assoc, Nat.mul_comm (2 ^ k) den]
  simp only [basin, hspacing, hdiv, hfine, hpower, Nat.sub_mul, Nat.add_mul, hmid, hstep,
    decide_eq_false_iff_not] at hlow hhigh hopen
  by_cases hfiner : m = 2 ^ 52 ∧ k ≠ 0
  · rw [if_pos hfiner, Nat.mul_comm (2 ^ k) den] at hlow hopen
    exact ⟨⟨by omega, by omega, by omega⟩, by omega⟩
  · rw [if_neg hfiner, hstep] at hlow hopen
    exact ⟨⟨by omega, by omega, by omega⟩, by omega⟩

theorem two_pow_add_mul (k a den : Nat) : 2 ^ (k + a) * den = 2 ^ a * (den * 2 ^ k) := by
  rw [Nat.pow_add, Nat.mul_comm den, Nat.mul_comm (2 ^ k), Nat.mul_assoc]

/-- Just below a power of two the grid is finer, and what is at most a quarter of a step of the
coarser grid away rounds to the power. -/
theorem ofRatio_below_power (negative : Bool) {k num den : Nat} (hden : 0 < den)
    (hbound : 2 ^ 52 * 2 ^ (k + 1) < unitsBound) (hbelow : num < 2 ^ 52 * (den * 2 ^ (k + 1)))
    (hquarter : 4 * (2 ^ 52 * (den * 2 ^ (k + 1))) ≤ 4 * num + den * 2 ^ (k + 1)) :
    ofRatio negative num den = finite negative (2 ^ 52 * 2 ^ (k + 1)) := by
  have hstep : 0 < den * 2 ^ k := Nat.mul_pos hden (Nat.two_pow_pos k)
  have hhalf : den * 2 ^ (k + 1) = 2 * (den * 2 ^ k) := by
    rw [Nat.pow_succ, ← Nat.mul_assoc, Nat.mul_comm]
  have hunits : 2 ^ 52 * 2 ^ (k + 1) = 2 ^ 53 * 2 ^ k := by
    rw [← Nat.pow_add, ← Nat.pow_add]
    congr 1
    omega
  have hspacing : spacing (num / den) = 2 ^ k := by
    apply spacing_eq
    · rw [Nat.div_lt_iff_lt_mul hden, two_pow_add_mul]
      omega
    · rw [Nat.le_div_iff_mul_le hden, two_pow_add_mul]
      omega
  have hnear : Near (2 ^ 53) num (den * 2 ^ k) := ⟨by omega, by omega, by omega⟩
  rw [hunits] at hbound ⊢
  exact ofRatio_of_near hden (Nat.two_pow_pos k) hspacing hbound hnear

/-- **The quotients in the basin of a number round to it.** -/
theorem ofRatio_of_holds (negative : Bool) {units num den : Nat} (hpos : 0 < units)
    (hformat : (finite negative units).InFormat) (hden : 0 < den)
    (hholds : (basin units).holds (4 * num) den = true) :
    ofRatio negative num den = finite negative units := by
  obtain ⟨hdvd, hbound⟩ := hformat
  obtain ⟨m, k, rfl, hspacing, hm, hdigits, hleading⟩ := exists_of_spacing_dvd hpos hdvd
  obtain ⟨hnear, hfine⟩ := near_of_holds hspacing hholds
  have hlow := hnear.low
  have hhigh := hnear.high
  have hgap : 0 < 2 ^ k := Nat.two_pow_pos k
  have hstep : 0 < den * 2 ^ k := Nat.mul_pos hden hgap
  have htop : num / den < 2 ^ (k + 53) := by
    rw [Nat.div_lt_iff_lt_mul hden, two_pow_add_mul]
    have hmul : (m + 1) * (den * 2 ^ k) ≤ 2 ^ 53 * (den * 2 ^ k) :=
      Nat.mul_le_mul_right _ hdigits
    rw [Nat.add_one_mul m] at hmul
    omega
  by_cases hbottom : k = 0 ∨ 2 ^ (k + 52) ≤ num / den
  · -- the quotient has the magnitude of the number
    exact ofRatio_of_near hden hgap (spacing_eq htop hbottom) hbound hnear
  · -- the quotient is smaller, so the number is the power of two above it
    rw [not_or, Nat.not_le, Nat.div_lt_iff_lt_mul hden, two_pow_add_mul] at hbottom
    obtain ⟨hk, hbelow⟩ := hbottom
    have hpower : m = 2 ^ 52 := by
      refine Nat.le_antisymm (Nat.le_of_not_lt fun hlt => ?_) (hleading.resolve_left hk)
      have hmul : (2 ^ 52 + 1) * (den * 2 ^ k) ≤ m * (den * 2 ^ k) := Nat.mul_le_mul_right _ hlt
      rw [Nat.add_one_mul (2 ^ 52)] at hmul
      omega
    obtain ⟨j, rfl⟩ : ∃ j, k = j + 1 := ⟨k - 1, by omega⟩
    subst hpower
    exact ofRatio_below_power negative hden hbound hbelow (hfine rfl hk)

/-- At most 53 binary digits and a power of two are a multiple of the distance between their
neighbours. -/
theorem spacing_dvd {m k : Nat} (hm : m ≤ 2 ^ 53) : spacing (m * 2 ^ k) ∣ m * 2 ^ k := by
  rcases Nat.lt_or_eq_of_le hm with hlt | rfl
  · have hlog : (m * 2 ^ k).log2 + 1 - 53 ≤ k := by
      by_cases hzero : m * 2 ^ k = 0
      · rw [hzero, Nat.log2_zero]
        omega
      · have hbound : m * 2 ^ k < 2 ^ (53 + k) := by
          rw [Nat.pow_add]
          exact Nat.mul_lt_mul_of_pos_right hlt (Nat.two_pow_pos k)
        have hdigits := (Nat.log2_lt hzero).mpr hbound
        omega
    exact Nat.dvd_trans (Nat.pow_dvd_pow 2 hlog) (Nat.dvd_mul_left _ m)
  · have hlog : (2 ^ 53 * 2 ^ k).log2 + 1 - 53 ≤ 53 + k := by
      rw [← Nat.pow_add, Nat.log2_two_pow]
      omega
    rw [← Nat.pow_add] at hlog ⊢
    exact Nat.pow_dvd_pow 2 hlog

/-- Every quotient is rounded to a number of the format. -/
theorem inFormat_ofRatio (negative : Bool) (num : Nat) {den : Nat} (hden : 0 < den) :
    (ofRatio negative num den).InFormat := by
  obtain ⟨k, hk, hlt⟩ : ∃ k, spacing (num / den) = 2 ^ k ∧ num / den < 2 ^ (k + 53) := by
    refine ⟨_, rfl, Nat.lt_of_lt_of_le Nat.lt_log2_self ?_⟩
    exact Nat.pow_le_pow_right Nat.two_pos (by omega)
  have hround : roundDiv num (den * 2 ^ k) ≤ 2 ^ 53 := by
    have hstep : 0 < den * 2 ^ k := Nat.mul_pos hden (Nat.two_pow_pos k)
    rw [Nat.div_lt_iff_lt_mul hden, two_pow_add_mul] at hlt
    rw [← roundDiv_mul_self (2 ^ 53) hstep]
    exact roundDiv_mono _ (Nat.le_of_lt hlt)
  rw [ofRatio_eq, hk]
  split
  · next hbound => exact ⟨spacing_dvd hround, hbound⟩
  · trivial

end Double

/-- The floating-point numbers among the numbers are those of the format. -/
def Number.InFormat : Number → Prop
  | .int _ => True
  | .real x => x.InFormat

end GrammarAudit
