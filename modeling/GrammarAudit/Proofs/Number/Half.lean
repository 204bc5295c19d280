import GrammarAudit.Proofs.Number.Monotone

/-!
# Halves keep the order

A half is rounded to a floating-point number, and rounding keeps the order.

- `Number.level?_half`: the place in the order of a half.
- `Number.half_le_half`: halves are ordered like the numbers.
-/

namespace GrammarAudit

-- the powers behind them are too large to be unfolded by a unifier
attribute [local irreducible] Double.unitsPerOne Double.unitsBound

/-- The units of the rounded half of a number of units. -/
def Double.halvedUnits (units : Nat) : Nat :=
  roundDiv units (2 * spacing (units / 2)) * spacing (units / 2)

namespace Number

/-- The place in the order of the half of a number of units. -/
def halvedLevel (units : Int) : Int × Int :=
  if Double.halvedUnits units.natAbs < Double.unitsBound then
    (0, Double.signed (units < 0) (Double.halvedUnits units.natAbs))
  else (if units < 0 then -1 else 1, 0)

/-- The half of a finite number has the place of its rounded units, and an infinite one is its own
half. -/
theorem level?_half (a : Number) :
    a.half.level? = a.level?.map fun x => if x.1 = 0 then halvedLevel x.2 else x := by
  cases a with
  | int n => exact level?_ofRatio_int 2 n
  | real x =>
    cases x with
    | finite s u => exact level?_ofRatio_signed 2 s u
    | infinite s => cases s <;> rfl
    | nan => rfl

/-- **Halves are ordered like the numbers.** -/
theorem half_le_half {a b : Number} (h : a.le b = true) : a.half.le b.half = true := by
  obtain ⟨x, y, hx, hy, hxy⟩ := le_iff.mp h
  refine le_iff.mpr ⟨_, _, by rw [level?_half, hx]; rfl, by rw [level?_half, hy]; rfl, ?_⟩
  rw [levelLe_iff] at hxy
  dsimp only
  by_cases hxfin : x.1 = 0
  · rw [if_pos hxfin]
    by_cases hyfin : y.1 = 0
    · rw [if_pos hyfin]
      apply roundedLevel_mono Nat.two_pos
      omega
    · -- only plus infinity is above a finite number
      have hinfinite : y = (1, 0) := by
        rcases infinite_of_level? hy hyfin with h | h
        · exact h
        · rw [h] at hxy
          dsimp only at hxy
          omega
      rw [if_neg hyfin, hinfinite]
      exact (roundedLevel_between 2 x.2).2
  · rw [if_neg hxfin]
    by_cases hyfin : y.1 = 0
    · -- only minus infinity is below a finite number
      have hinfinite : x = (-1, 0) := by
        rcases infinite_of_level? hx hxfin with h | h
        · rw [h] at hxy
          dsimp only at hxy
          omega
        · exact h
      rw [if_pos hyfin, hinfinite]
      exact (roundedLevel_between 2 y.2).1
    · rw [if_neg hyfin]
      exact levelLe_iff.mpr hxy

end Number

end GrammarAudit
