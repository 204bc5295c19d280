import GrammarAudit.Number.Shortest

/-!
# Numbers

A number is an integer of any size or a binary floating-point number. The two compare by their
exact values, whichever kind they are of.

- `Number.level?`, `Number.isFinite`: the place of the exact value in the order.
- `Number.le`, `Number.lt`: the order of the exact values; nothing compares with what is no number.
- `Number.canonical`: one form per value.
- `Number.half`, `Number.add`, `Number.sub`: integers stay exact where they can.
-/

namespace GrammarAudit

/-- An integer or a binary floating-point number. -/
inductive Number where
  | int (n : Int)
  | real (x : Double)
deriving DecidableEq, Repr, Inhabited

namespace Number

/-- The exact value as a place in the order: which of minus infinity, finite and plus infinity it
is, and among the finite ones its multiple of the smallest floating-point number. -/
def level? : Number → Option (Int × Int)
  | int n => some (0, n * Double.unitsPerOne)
  | real (.finite s u) => some (0, Double.signed s u)
  | real (.infinite s) => some (if s then -1 else 1, 0)
  | real .nan => none

/-- Whether a number is neither infinite nor no number at all. -/
def isFinite (a : Number) : Bool :=
  a.level?.any fun level => level.1 = 0

/-- Whether one place in the order is before another or the same. -/
def levelLe (a b : Int × Int) : Bool :=
  a.1 < b.1 || (a.1 = b.1 && a.2 ≤ b.2)

/-- Whether the first number is at most the second. -/
def le (a b : Number) : Bool :=
  match a.level?, b.level? with
  | some x, some y => levelLe x y
  | _, _ => false

/-- Whether the first number is below the second. -/
def lt (a b : Number) : Bool :=
  match a.level?, b.level? with
  | some x, some y => !levelLe y x
  | _, _ => false

/-- Whether two numbers have the same exact value. -/
def same (a b : Number) : Bool :=
  a.le b && b.le a

/-- The same value, as an integer if it is a whole number. -/
def canonical : Number → Number
  | int n => int n
  | real (.finite s u) =>
    if u % Double.unitsPerOne = 0 then int (Double.signed s (u / Double.unitsPerOne))
    else real (.finite s u)
  | real x => real x

/-- The floating-point number nearest to a number. -/
def toDouble : Number → Double
  | int n => .ofInt n
  | real x => x

/-- Half a number, as a floating-point number; infinite where an integer's half is too large. -/
def half : Number → Number
  | int n => real (.ofRatio (n < 0) (n.natAbs * Double.unitsPerOne) 2)
  | real x => real x.half

/-- The sum, exact for two integers. -/
def add : Number → Number → Number
  | int m, int n => int (m + n)
  | a, b => real (a.toDouble.add b.toDouble)

/-- The difference, exact for two integers. -/
def sub : Number → Number → Number
  | int m, int n => int (m - n)
  | a, b => real (a.toDouble.sub b.toDouble)

instance : LT Number := ⟨fun a b => a.lt b = true⟩

instance : DecidableRel (α := Number) (· < ·) := fun a b =>
  inferInstanceAs (Decidable (a.lt b = true))

instance : Sub Number := ⟨sub⟩

/-- The written form of a number. -/
def text : Number → String
  | int n => Text.decimal n
  | real x => x.text

end Number

end GrammarAudit
