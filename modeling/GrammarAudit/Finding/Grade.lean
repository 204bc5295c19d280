import GrammarAudit.Number.Basic

/-!
# Complexity grades

A complexity value is a weighted sum of the figures of a rule. It is graded against two
thresholds: critical and high from each of them on, medium from half the high one on.

- `Grade`: low, medium, high or critical.
- `complexityValue`: the weighted sum.
- `grade`: the grade of a value.
-/

namespace GrammarAudit

/-- How complex a rule is. -/
inductive Grade where
  | low
  | medium
  | high
  | critical
deriving DecidableEq, Repr, Inhabited

/-- The written name of a grade. -/
def Grade.label : Grade → String
  | low => "low"
  | medium => "medium"
  | high => "high"
  | critical => "critical"

/-- All grades, from the least complex on. -/
def Grade.all : List Grade := [.low, .medium, .high, .critical]

/-- The place of a grade among all grades. -/
def Grade.rank : Grade → Nat
  | low => 0
  | medium => 1
  | high => 2
  | critical => 3

/-- Whether a grade counts as highly complex. -/
def Grade.isHigh (g : Grade) : Bool :=
  g = .high || g = .critical

/-- The values from which a rule is graded high and critical. -/
structure Thresholds where
  high : Number
  critical : Number
deriving DecidableEq, Repr

/-- The weighted sum of the figures of a rule, with a penalty for each kind of recursion. -/
def complexityValue (depth alternatives referenceCount lookahead : Int)
    (direct indirect : Bool) : Int :=
  depth * 5 + alternatives * 3 + referenceCount * 2 + lookahead * 4
    + (if direct then 15 else 0) + (if indirect then 25 else 0)

/-- The grade of a complexity value. -/
def grade (thresholds : Thresholds) (value : Int) : Grade :=
  if thresholds.critical.le (.int value) then .critical
  else if thresholds.high.le (.int value) then .high
  else if thresholds.high.half.le (.int value) then .medium
  else .low

/-- Whether the half of a threshold is too large for a floating-point number. An infinite
threshold is its own half. -/
def halfOverflows (threshold : Number) : Bool :=
  threshold.isFinite && !threshold.half.isFinite

/-- Whether a value cannot be graded: it reaches neither threshold, and half of the high one is
out of range. -/
def gradeOverflows (thresholds : Thresholds) (value : Int) : Bool :=
  !thresholds.critical.le (.int value) && !thresholds.high.le (.int value) &&
    halfOverflows thresholds.high

end GrammarAudit
