import GrammarAudit.Proofs.Number.Rounding

/-!
# Differences keep the order

A difference of floating-point numbers is the exact one rounded once, so taking away more never
leaves more. Where an integer meets a floating-point number it is rounded first, which keeps its
place among the numbers of the format.

- `Double.inFormat_add`, `Number.inFormat_add`: a rounded sum is a number of the format.
- `Number.lt_sub_of_le`: a limit that a difference exceeds is exceeded when less is taken away.
- `Number.Precedes`: the first number is at most the second, and no less exact.
- `Number.lt_sub_of_precedes`: the same for numbers of both kinds, along a chain of these.
-/

namespace GrammarAudit

-- the powers behind them are too large to be unfolded by a unifier
attribute [local irreducible] Double.unitsPerOne Double.unitsBound

namespace Double

/-! ## Sums -/

theorem signed_not (negative : Bool) (units : Nat) :
    signed (!negative) units = -signed negative units := by
  cases negative with
  | false => rfl
  | true => exact (Int.neg_neg _).symm

/-- A sum of floating-point numbers is a number of the format. -/
theorem inFormat_add (x y : Double) : (x.add y).InFormat := by
  have hzero : 0 < unitsBound := by decide +kernel
  rcases x with ⟨s, u⟩ | s | _
  · rcases y with ⟨t, v⟩ | t | _
    · show InFormat (if signed s u + signed t v = 0 then finite (s && t) 0
        else ofRatio (signed s u + signed t v < 0) (signed s u + signed t v).natAbs 1)
      split
      · exact ⟨Nat.dvd_zero _, hzero⟩
      · exact inFormat_ofRatio _ _ Nat.one_pos
    · trivial
    · trivial
  · rcases y with ⟨t, v⟩ | t | _
    · trivial
    · show InFormat (if s = t then infinite s else nan)
      split <;> trivial
    · trivial
  · trivial

/-- A number of the format is its own nearest one. -/
theorem ofRatio_one {negative : Bool} {units : Nat} (h : (finite negative units).InFormat) :
    ofRatio negative units 1 = finite negative units := by
  obtain ⟨⟨m, hm⟩, hbound⟩ := h
  have hgap : 0 < spacing units := Nat.two_pow_pos _
  have hround : roundDiv units (spacing units) * spacing units = units := by
    have hself : roundDiv (m * spacing units) (spacing units) = m := roundDiv_mul_self m hgap
    rw [Nat.mul_comm, ← hm] at hself
    rw [hself, Nat.mul_comm]
    exact hm.symm
  rw [ofRatio_eq, Nat.div_one, Nat.one_mul, hround, if_pos hbound]

end Double

namespace Number

/-- A sum of numbers is an integer or a number of the format. -/
theorem inFormat_add (a b : Number) : (a.add b).InFormat := by
  cases a with
  | int m =>
    cases b with
    | int n => trivial
    | real y => exact Double.inFormat_add _ _
  | real x => exact Double.inFormat_add _ _

/-- A finite number of the format has the place of its units when it is rounded. -/
theorem roundedLevel_signed {negative : Bool} {units : Nat}
    (h : (Double.finite negative units).InFormat) :
    roundedLevel 1 (Double.signed negative units) = (0, Double.signed negative units) := by
  have hlevel := level?_ofRatio_signed 1 negative units
  rw [Double.ofRatio_one h] at hlevel
  exact (Option.some.inj hlevel).symm

theorem roundedLevel_zero (den : Nat) : roundedLevel den 0 = (0, 0) := by
  have hlevel := level?_ofRatio_signed den false 0
  rw [Double.ofRatio_zero] at hlevel
  exact (Option.some.inj hlevel).symm

/-- A sum of finite numbers has the place of the exact sum when it is rounded. -/
theorem level?_add (s t : Bool) (u v : Nat) :
    (real ((Double.finite s u).add (.finite t v))).level? =
      some (roundedLevel 1 (Double.signed s u + Double.signed t v)) := by
  show (real (if Double.signed s u + Double.signed t v = 0 then .finite (s && t) 0
    else .ofRatio (Double.signed s u + Double.signed t v < 0)
      (Double.signed s u + Double.signed t v).natAbs 1)).level? = _
  split
  · next hzero =>
    rw [hzero, roundedLevel_zero]
    cases s && t <;> rfl
  · exact level?_ofRatio 1 _

/-! ## Differences of floating-point numbers -/

/-- Floating-point numbers in order are finite, or the first is minus or the second plus
infinity. -/
theorem le_real_cases {x y : Double} (h : (real x).le (real y) = true) :
    (∃ s u t v, x = .finite s u ∧ y = .finite t v ∧ Double.signed s u ≤ Double.signed t v) ∨
      x = .infinite true ∧ y ≠ .nan ∨ y = .infinite false := by
  obtain ⟨k, l, hk, hl, hkl⟩ := le_iff.mp h
  rw [levelLe_iff] at hkl
  rcases x with ⟨s, u⟩ | s | _
  · rcases y with ⟨t, v⟩ | t | _
    · cases hk
      cases hl
      exact .inl ⟨s, u, t, v, rfl, rfl, by simpa using hkl⟩
    · cases t with
      | false => exact .inr (.inr rfl)
      | true =>
        cases hk
        cases hl
        simp at hkl
    · cases hl
  · cases s with
    | true =>
      refine .inr (.inl ⟨rfl, fun hnan => ?_⟩)
      rw [hnan] at hl
      cases hl
    | false =>
      rcases y with ⟨t, v⟩ | t | _
      · cases hk
        cases hl
        simp at hkl
      · cases t with
        | false => exact .inr (.inr rfl)
        | true =>
          cases hk
          cases hl
          simp at hkl
      · cases hl
  · cases hk

/-- Whatever has a place in the order is at most plus infinity. -/
theorem le_infinity {a : Number} {x : Int × Int} (h : a.level? = some x) :
    a.le (real (.infinite false)) = true := by
  refine le_iff.mpr ⟨x, (1, 0), h, rfl, ?_⟩
  rw [levelLe_iff]
  by_cases hx : x.1 = 0
  · rw [hx]
    exact .inl (by decide)
  · rcases infinite_of_level? h hx with rfl | rfl
    · exact .inr ⟨rfl, Int.le_refl 0⟩
    · exact .inl (by decide)

/-- Nothing is below minus infinity. -/
theorem not_lt_minus_infinity (a : Number) : ¬a.lt (real (.infinite true)) = true := by
  intro h
  obtain ⟨x, y, hx, hy, hxy⟩ := lt_iff.mp h
  cases hy
  rw [levelLe_iff] at hxy
  by_cases hfin : x.1 = 0
  · rw [hfin] at hxy
    exact hxy (.inl (by decide))
  · rcases infinite_of_level? hx hfin with rfl | rfl
    · exact hxy (.inl (by decide))
    · exact hxy (.inr ⟨rfl, Int.le_refl 0⟩)

/-- Nothing compares with what is no number. -/
theorem not_lt_nan (a : Number) : ¬a.lt (real .nan) = true := by
  intro h
  obtain ⟨x, y, -, hy, -⟩ := lt_iff.mp h
  cases hy

/-- A limit that a difference exceeds is exceeded when less is taken away. -/
theorem lt_sub_of_le {limit : Number} {now x y : Double} (hxy : (real x).le (real y) = true)
    (h : limit.lt (real (now.sub y)) = true) : limit.lt (real (now.sub x)) = true := by
  rcases le_real_cases hxy with ⟨s, u, t, v, rfl, rfl, hunits⟩ | ⟨rfl, hy⟩ | rfl
  · rcases now with ⟨p, w⟩ | p | _
    · -- the exact differences are in order, and rounding keeps them so
      refine lt_of_lt_of_le h (le_iff.mpr ⟨_, _, level?_add p (!t) w v, level?_add p (!s) w u, ?_⟩)
      apply roundedLevel_mono Nat.one_pos
      rw [Double.signed_not, Double.signed_not]
      omega
    · exact h
    · exact absurd h (not_lt_nan limit)
  · obtain ⟨-, l, -, hl, -⟩ := lt_iff.mp h
    rcases now with ⟨p, w⟩ | p | _
    · exact lt_of_lt_of_le h (le_infinity hl)
    · cases p with
      | false => exact lt_of_lt_of_le h (le_infinity hl)
      | true =>
        -- nothing is left to exceed the limit
        rcases y with ⟨t, v⟩ | t | _
        · exact absurd h (not_lt_minus_infinity limit)
        · cases t with
          | false => exact absurd h (not_lt_minus_infinity limit)
          | true => exact absurd h (not_lt_nan limit)
        · exact absurd rfl hy
    · exact absurd h (not_lt_nan limit)
  · rcases now with ⟨p, w⟩ | p | _
    · exact absurd h (not_lt_minus_infinity limit)
    · cases p with
      | false => exact absurd h (not_lt_nan limit)
      | true => exact absurd h (not_lt_minus_infinity limit)
    · exact absurd h (not_lt_nan limit)

/-! ## Differences of numbers of both kinds -/

/-- The first number is at most the second and no less exact: only an integer precedes an integer,
and what a number of the format precedes is a number of the format. -/
structure Precedes (a b : Number) : Prop where
  le : a.le b = true
  exact : ∀ n, b = int n → ∃ m, a = int m
  inFormat : a.InFormat → b.InFormat

theorem Precedes.trans {a b c : Number} (hab : a.Precedes b) (hbc : b.Precedes c) :
    a.Precedes c where
  le := le_trans hab.le hbc.le
  exact n hc := by
    obtain ⟨m, hb⟩ := hbc.exact n hc
    exact hab.exact m hb
  inFormat := hbc.inFormat ∘ hab.inFormat

/-- A number precedes every sum with it that is not below it. -/
theorem precedes_add {a d : Number} (h : a.le (a.add d) = true) : a.Precedes (a.add d) where
  le := h
  exact n hsum := by
    cases a with
    | int m => exact ⟨m, rfl⟩
    | real x => cases hsum
  inFormat _ := inFormat_add a d

theorem int_le_int_iff {m n : Int} : (int m).le (int n) = true ↔ m ≤ n := by
  have hunits : 0 < (Double.unitsPerOne : Int) := by
    have hpos := Double.unitsPerOne_pos
    omega
  have hlevels : (int m).le (int n) =
      levelLe (0, m * Double.unitsPerOne) (0, n * Double.unitsPerOne) := rfl
  rw [hlevels, levelLe_iff]
  simp [Int.mul_le_mul_right hunits]

/-- Numbers stay in order when they are made floating-point numbers, if the second is one of the
format already or both are integers. -/
theorem Precedes.toDouble {a b : Number} (h : a.Precedes b) :
    (real a.toDouble).le (real b.toDouble) = true := by
  obtain ⟨k, l, hk, hl, hkl⟩ := le_iff.mp h.le
  have hround (n : Int) : (real (Double.ofInt n)).level? =
      some (roundedLevel 1 (n * Double.unitsPerOne)) := level?_ofRatio_int 1 n
  cases a with
  | real x =>
    cases b with
    | int n =>
      obtain ⟨m, hm⟩ := h.exact n rfl
      cases hm
    | real y => exact h.le
  | int m =>
    cases hk
    rw [levelLe_iff] at hkl
    cases b with
    | int n =>
      cases hl
      refine le_iff.mpr ⟨_, _, hround m, hround n, roundedLevel_mono Nat.one_pos ?_⟩
      simpa using hkl
    | real y =>
      rcases y with ⟨t, v⟩ | t | _
      · cases hl
        refine le_iff.mpr ⟨_, _, hround m, rfl, ?_⟩
        rw [← roundedLevel_signed (h.inFormat trivial)]
        refine roundedLevel_mono Nat.one_pos ?_
        simpa using hkl
      · cases hl
        cases t with
        | false => exact le_infinity (hround m)
        | true => simp at hkl
      · cases hl

/-- **A limit that a difference exceeds is exceeded when less is taken away.** -/
theorem lt_sub_of_precedes {limit now a b : Number} (hab : a.Precedes b) (hnow : b.Precedes now)
    (h : limit.lt (now.sub b) = true) : limit.lt (now.sub a) = true := by
  cases now with
  | real z => exact lt_sub_of_le hab.toDouble h
  | int k =>
    obtain ⟨n, rfl⟩ := hnow.exact k rfl
    obtain ⟨m, rfl⟩ := hab.exact n rfl
    have hmn : m ≤ n := int_le_int_iff.mp hab.le
    exact lt_of_lt_of_le h (int_le_int_iff.mpr (Int.sub_le_sub_left hmn k))

end Number

end GrammarAudit
