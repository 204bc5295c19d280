import GrammarAudit.Proofs.Number.Rounding
import GrammarAudit.Number.Shortest

/-!
# The shortest decimal reads back

The grids are searched for a point in the basin of a number, and the quotients in the basin round
to the number. The finest grid is as fine as the format where that is finest, so the search always
ends at a point, and the point is small enough to be computed when it is read.

- `Double.onGrid?_finest`: the finest grid has a point in every basin.
- `Double.ofDecimal_shortest`: the digits that are found read back to the number.
- `Double.inFormat_ofDecimal`: whatever is read is a number of the format.
- `Double.ofDecimal_mul_pow`: zeros at the end do not matter.
-/

namespace GrammarAudit.Double

-- the powers behind them are too large to be unfolded by a unifier
attribute [local irreducible] unitsPerOne unitsBound

/-! ## Grids -/

/-- A point that a grid gives is one of that grid and lies in the basin. -/
theorem holds_of_onGrid? {b : Basin} {e : Int} {d : Decimal} (h : b.onGrid? e = some d) :
    d.exponent = e ∧ b.holds (d.digits * (4 * unitsPerOne * 10 ^ e.toNat))
      (10 ^ (-e).toNat) = true := by
  unfold Basin.onGrid? at h
  dsimp only at h
  split at h
  · next hbelow habove =>
    cases h
    refine ⟨rfl, ?_⟩
    dsimp only
    split
    · exact hbelow
    · exact habove
  · next hbelow _ =>
    cases h
    exact ⟨rfl, hbelow⟩
  · next _ habove =>
    cases h
    exact ⟨rfl, habove⟩
  · cases h

/-- On a grid that is as fine as the format the last point up to a number lies in its basin. -/
theorem holds_floor {units num den : Nat} (hpos : 0 < units) (hnum : 0 < num) (hfine : num ≤ den) :
    (basin units).holds ((basin units).mid * den / num * num) den = true := by
  have hgap : 0 < spacing units := Nat.two_pow_pos _
  have hlow : (basin units).low + 1 ≤ (basin units).mid := by
    unfold basin
    dsimp only
    split <;> omega
  have hhigh : (basin units).mid + 1 ≤ (basin units).high := by
    unfold basin
    dsimp only
    omega
  have hbelow := Nat.mul_le_mul_right den hlow
  have habove := Nat.mul_le_mul_right den hhigh
  rw [Nat.add_one_mul] at hbelow habove
  have hfloor := Nat.div_add_mod' ((basin units).mid * den) num
  have hrest := Nat.mod_lt ((basin units).mid * den) hnum
  rw [Basin.holds_iff]
  omega

/-- A grid gives a point when the last one up to the number lies in the basin. -/
theorem exists_onGrid? {b : Basin} {e : Int}
    (h : b.holds (b.mid * 10 ^ (-e).toNat / (4 * unitsPerOne * 10 ^ e.toNat) *
      (4 * unitsPerOne * 10 ^ e.toNat)) (10 ^ (-e).toNat) = true) :
    ∃ d, b.onGrid? e = some d := by
  unfold Basin.onGrid?
  dsimp only
  split
  · exact ⟨_, rfl⟩
  · exact ⟨_, rfl⟩
  · next hbelow _ => exact absurd (hbelow.symm.trans h) Bool.false_ne_true
  · next hbelow _ => exact absurd (hbelow.symm.trans h) Bool.false_ne_true

/-- The finest grid has a point in every basin. -/
theorem onGrid?_finest {units : Nat} (hpos : 0 < units) :
    ∃ d, (basin units).onGrid? (-324) = some d := by
  have hstep : 0 < 4 * unitsPerOne * 10 ^ (-324 : Int).toNat := by decide +kernel
  have hfine : 4 * unitsPerOne * 10 ^ (-324 : Int).toNat ≤ 10 ^ (-(-324 : Int)).toNat := by
    decide +kernel
  exact exists_onGrid? (holds_floor hpos hstep hfine)

/-! ## The digits that are found -/

theorem mem_gridExponents {e : Int} : e ∈ gridExponents ↔ -324 ≤ e ∧ e ≤ 308 := by
  unfold gridExponents
  rw [List.mem_map]
  constructor
  · rintro ⟨i, hi, rfl⟩
    have hlt := List.mem_range.mp hi
    omega
  · rintro ⟨hlow, hhigh⟩
    exact ⟨(308 - e).toNat, List.mem_range.mpr (by omega), by omega⟩

/-- The digits of a number are a point of one of the grids in its basin. -/
theorem shortest_spec {units : Nat} (hpos : 0 < units) :
    -324 ≤ (shortest units).exponent ∧ (shortest units).exponent ≤ 308 ∧
      (basin units).holds
        ((shortest units).digits * (4 * unitsPerOne * 10 ^ (shortest units).exponent.toNat))
        (10 ^ (-(shortest units).exponent).toNat) = true := by
  have hfinest := onGrid?_finest hpos
  obtain ⟨d, hd⟩ : ∃ d, gridExponents.findSome? (basin units).onGrid? = some d := by
    rw [← Option.isSome_iff_exists, List.findSome?_isSome_iff]
    exact ⟨-324, mem_gridExponents.mpr (by decide), Option.isSome_iff_exists.mpr hfinest⟩
  have hshortest : shortest units = d := by
    unfold shortest
    rw [hd, Option.getD_some]
  obtain ⟨e, hmem, he⟩ := List.exists_of_findSome?_eq_some hd
  obtain ⟨hexponent, hholds⟩ := holds_of_onGrid? he
  rw [hshortest, hexponent]
  rw [mem_gridExponents] at hmem
  exact ⟨hmem.1, hmem.2, hholds⟩

/-- The point zero lies in no basin of a number of the format. -/
theorem digits_shortest_pos {units : Nat} (hpos : 0 < units) (h : spacing units ∣ units) :
    0 < (shortest units).digits := by
  obtain ⟨_, _, hholds⟩ := shortest_spec hpos
  obtain ⟨m, k, rfl, hspacing, hm, _⟩ := exists_of_spacing_dvd hpos h
  refine Nat.pos_of_ne_zero fun hzero => ?_
  rw [hzero, Nat.zero_mul] at hholds
  obtain ⟨hnear, -⟩ : Near m 0 _ ∧ _ := near_of_holds hspacing hholds
  have hlow := hnear.low
  have hstep : 0 < 10 ^ (-(shortest (m * 2 ^ k)).exponent).toNat * 2 ^ k :=
    Nat.mul_pos (Nat.pow_pos (by decide)) (Nat.two_pow_pos k)
  have hmul := Nat.mul_le_mul_right (10 ^ (-(shortest (m * 2 ^ k)).exponent).toNat * 2 ^ k) hm
  omega

/-! ## Decimals that are read -/

/-- The decimal place before the leading digit. -/
def size (digits : Nat) (exponent : Int) : Int :=
  (Nat.toDigits 10 digits).length + exponent

theorem ofDecimal_eq (negative : Bool) (digits : Nat) (exponent : Int) :
    ofDecimal negative digits exponent =
      if digits = 0 ∨ size digits exponent < -400 then finite negative 0
      else if 400 < size digits exponent then infinite negative
      else ofRatio negative (digits * 10 ^ exponent.toNat * unitsPerOne)
        (10 ^ (-exponent).toNat) := by
  show (if digits = 0 ∨ size digits exponent < -400 then finite negative 0
    else if 400 < size digits exponent then infinite negative
    else if 0 ≤ exponent then
      ofRatio negative (digits * 10 ^ exponent.toNat * unitsPerOne) 1
    else ofRatio negative (digits * unitsPerOne) (10 ^ (-exponent).toNat)) = _
  congr 2
  by_cases hsign : 0 ≤ exponent
  · have hzero : (-exponent).toNat = 0 := by omega
    rw [if_pos hsign, hzero, Nat.pow_zero]
  · have hzero : exponent.toNat = 0 := by omega
    rw [if_neg hsign, hzero, Nat.pow_zero, Nat.mul_one]

/-- Every decimal is read to a number of the format. -/
theorem inFormat_ofDecimal (negative : Bool) (digits : Nat) (exponent : Int) :
    (ofDecimal negative digits exponent).InFormat := by
  rw [ofDecimal_eq]
  split
  · exact ⟨Nat.dvd_zero _, by decide +kernel⟩
  · split
    · trivial
    · exact inFormat_ofRatio negative _ (Nat.pow_pos (by decide))

/-- Zeros at the end of the digits are decimal places. -/
theorem size_mul_pow {digits : Nat} (hdigits : 0 < digits) (k : Nat) (exponent : Int) :
    size (digits * 10 ^ k) (exponent - k) = size digits exponent := by
  have hpower : 0 < 10 ^ k := Nat.pow_pos (by decide)
  have hle (j : Nat) (hj : 0 < j) :
      (Nat.toDigits 10 (digits * 10 ^ k)).length ≤ j + k ↔
        (Nat.toDigits 10 digits).length ≤ j := by
    rw [Nat.length_toDigits_le_iff (by decide) (by omega),
      Nat.length_toDigits_le_iff (by decide) hj, Nat.pow_add, Nat.mul_lt_mul_right hpower]
  have hpos : 0 < (Nat.toDigits 10 (digits * 10 ^ k)).length := Nat.length_toDigits_pos
  have hpos' : 0 < (Nat.toDigits 10 digits).length := Nat.length_toDigits_pos
  have hlong : k < (Nat.toDigits 10 (digits * 10 ^ k)).length := by
    refine Nat.lt_of_not_le fun hshort => ?_
    have hlt := (Nat.length_toDigits_le_iff (by decide) (by omega)).mp hshort
    have hmul := Nat.mul_le_mul_right (10 ^ k) hdigits
    omega
  have hup := (hle _ hpos').mpr (Nat.le_refl _)
  have hdown := (hle ((Nat.toDigits 10 (digits * 10 ^ k)).length - k) (by omega)).mp (by omega)
  unfold size
  omega

theorem ofDecimal_mul_pow (negative : Bool) {digits : Nat} (hdigits : 0 < digits) (k : Nat)
    (exponent : Int) :
    ofDecimal negative (digits * 10 ^ k) (exponent - k) = ofDecimal negative digits exponent := by
  have hpower (j : Nat) : 0 < 10 ^ j := Nat.pow_pos (by decide)
  have hzero : digits * 10 ^ k = 0 ↔ digits = 0 := by
    rw [Nat.mul_eq_zero]
    exact or_iff_left (Nat.ne_of_gt (hpower k))
  -- both quotients are brought to one denominator
  have hplaces : k + (exponent - k).toNat + (-exponent).toNat =
      exponent.toNat + (-(exponent - k)).toNat := by omega
  have hratio : ofRatio negative (digits * 10 ^ k * 10 ^ (exponent - k).toNat * unitsPerOne)
      (10 ^ (-(exponent - k)).toNat) =
      ofRatio negative (digits * 10 ^ exponent.toNat * unitsPerOne) (10 ^ (-exponent).toNat) := by
    rw [← ofRatio_mul_mul negative _ _ (hpower (-exponent).toNat),
      ← ofRatio_mul_mul negative _ (10 ^ (-exponent).toNat) (hpower (-(exponent - k)).toNat)]
    have hmerge (i j : Nat) : digits * 10 ^ i * 10 ^ j = digits * 10 ^ (i + j) := by
      rw [Nat.mul_assoc, ← Nat.pow_add]
    congr 1
    · rw [Nat.mul_right_comm _ unitsPerOne, Nat.mul_right_comm _ unitsPerOne, hmerge, hmerge,
        hmerge, hplaces]
    · exact Nat.mul_comm ..
  rw [ofDecimal_eq, ofDecimal_eq, size_mul_pow hdigits, hratio]
  simp only [hzero]

/-- The leading digit of a number stands at most where it does for the largest number. -/
theorem size_shortest_le {units width : Nat} (hpos : 0 < units) (hdvd : spacing units ∣ units)
    (hbound : units < unitsBound) (hwidth : 308 < width)
    (hrange : 6 * unitsBound < 10 ^ width * (4 * unitsPerOne)) :
    size (shortest units).digits (shortest units).exponent ≤ width := by
  obtain ⟨_, hexponent, hholds⟩ := shortest_spec hpos
  obtain ⟨_, hhigh, _⟩ := Basin.holds_iff.mp hholds
  have hgap : spacing units ≤ units := Nat.le_of_dvd hpos hdvd
  have htop : (basin units).high < 10 ^ width * (4 * unitsPerOne) := by
    unfold basin
    dsimp only
    omega
  generalize shortest units = d at *
  obtain ⟨digits, e⟩ := d
  dsimp only at *
  have hden : 0 < 10 ^ (-e).toNat := Nat.pow_pos (by decide)
  have hlt : digits * 10 ^ e.toNat < 10 ^ (width + (-e).toNat) := by
    refine Nat.lt_of_mul_lt_mul_right (a := 4 * unitsPerOne) ?_
    calc digits * 10 ^ e.toNat * (4 * unitsPerOne)
        = digits * (4 * unitsPerOne * 10 ^ e.toNat) := by
          rw [Nat.mul_assoc, Nat.mul_comm (10 ^ e.toNat)]
      _ ≤ (basin units).high * 10 ^ (-e).toNat := hhigh
      _ < 10 ^ width * (4 * unitsPerOne) * 10 ^ (-e).toNat := Nat.mul_lt_mul_of_pos_right htop hden
      _ = 10 ^ (width + (-e).toNat) * (4 * unitsPerOne) := by rw [Nat.mul_right_comm, Nat.pow_add]
  have hplaces : width + (-e).toNat = width + (-e).toNat - e.toNat + e.toNat := by omega
  rw [hplaces, Nat.pow_add] at hlt
  have hlength := (Nat.length_toDigits_le_iff (by decide) (by omega)).mpr
    (Nat.lt_of_mul_lt_mul_right hlt)
  unfold size
  omega

/-- The digits of a number are not far outside the range. -/
theorem size_shortest {units : Nat} (hpos : 0 < units) (hdvd : spacing units ∣ units)
    (hbound : units < unitsBound) :
    -400 ≤ size (shortest units).digits (shortest units).exponent ∧
      size (shortest units).digits (shortest units).exponent ≤ 400 := by
  constructor
  · have hlow := (shortest_spec hpos).1
    unfold size
    omega
  · exact size_shortest_le hpos hdvd hbound (by decide) (by decide +kernel)

/-- **The digits of a number read back to it.** -/
theorem ofDecimal_shortest (negative : Bool) {units : Nat} (hpos : 0 < units)
    (hformat : (finite negative units).InFormat) :
    ofDecimal negative (shortest units).digits (shortest units).exponent =
      finite negative units := by
  obtain ⟨_, _, hholds⟩ := shortest_spec hpos
  obtain ⟨hlow, hhigh⟩ := size_shortest hpos hformat.1 hformat.2
  have hdigits := digits_shortest_pos hpos hformat.1
  have hquarters (n p : Nat) : n * (4 * unitsPerOne * p) = 4 * (n * p * unitsPerOne) := by
    rw [Nat.mul_right_comm n p, Nat.mul_assoc 4, Nat.mul_left_comm n, Nat.mul_assoc n]
  rw [hquarters] at hholds
  rw [ofDecimal_eq, if_neg (by omega), if_neg (by omega)]
  exact ofRatio_of_holds negative hpos hformat (Nat.pow_pos (by decide)) hholds

end GrammarAudit.Double
