/-!
# Binary floating-point numbers

The finite numbers of the 64-bit binary format are whole multiples of the smallest of them,
`2 ^ -1074`. A finite number is held as that multiple, so arithmetic is arithmetic on natural
numbers followed by one rounding.

- `Double`: a finite number with its sign, an infinity, or no number at all.
- `Double.ofRatio`: the nearest number to a quotient of such multiples, the even one on a tie.
- `Double.add`, `Double.sub`, `Double.half`: exact results rounded once.
-/

namespace GrammarAudit

/-- A number of the 64-bit binary floating-point format. `finite negative units` is `units` times
`2 ^ -1074`, negated when the flag is set; zero has both signs. -/
inductive Double where
  | finite (negative : Bool) (units : Nat)
  | infinite (negative : Bool)
  | nan
deriving DecidableEq, Repr, Inhabited

namespace Double

/-- One, as a multiple of the smallest number. -/
def unitsPerOne : Nat := Nat.pow 2 1074

/-- The first multiple that is too large to be finite. -/
def unitsBound : Nat := Nat.pow 2 2098

/-- The quotient rounded to the nearest whole number, the even one on a tie. -/
def roundDiv (num den : Nat) : Nat :=
  let q := num / den
  let twice := 2 * (num % den)
  if twice < den ∨ (twice = den ∧ q % 2 = 0) then q else q + 1

/-- The distance between neighbours of the format at a magnitude: 53 binary digits are kept. -/
def spacing (units : Nat) : Nat :=
  Nat.pow 2 (units.log2 + 1 - 53)

/-- The number nearest to `num / den` multiples of the smallest one. -/
def ofRatio (negative : Bool) (num den : Nat) : Double :=
  let gap := spacing (num / den)
  let units := roundDiv num (den * gap) * gap
  if units < unitsBound then finite negative units else infinite negative

/-- The number nearest to an integer. -/
def ofInt (n : Int) : Double :=
  ofRatio (n < 0) (n.natAbs * unitsPerOne) 1

/-- The number nearest to `digits * 10 ^ exponent`. Exponents far outside the range of the format
are settled without computing the power. -/
def ofDecimal (negative : Bool) (digits : Nat) (exponent : Int) : Double :=
  let size : Int := (Nat.toDigits 10 digits).length + exponent
  if digits = 0 ∨ size < -400 then finite negative 0
  else if 400 < size then infinite negative
  else if 0 ≤ exponent then ofRatio negative (digits * Nat.pow 10 exponent.toNat * unitsPerOne) 1
  else ofRatio negative (digits * unitsPerOne) (Nat.pow 10 (-exponent).toNat)

/-- The signed multiple of a finite number. -/
def signed (negative : Bool) (units : Nat) : Int :=
  if negative then -units else units

/-- The opposite number. -/
def neg : Double → Double
  | finite s u => finite (!s) u
  | infinite s => infinite (!s)
  | nan => nan

/-- The rounded sum. A sum of zero is negative only when both terms are. -/
def add : Double → Double → Double
  | finite s u, finite t v =>
    let sum := signed s u + signed t v
    if sum = 0 then finite (s && t) 0 else ofRatio (sum < 0) sum.natAbs 1
  | infinite s, infinite t => if s = t then infinite s else nan
  | infinite s, finite _ _ => infinite s
  | finite _ _, infinite t => infinite t
  | _, _ => nan

/-- The rounded difference. -/
def sub (x y : Double) : Double :=
  add x y.neg

/-- The rounded half. -/
def half : Double → Double
  | finite s u => ofRatio s u 2
  | infinite s => infinite s
  | nan => nan

/-- The integer part of a finite number, cut towards zero. -/
def truncate? : Double → Option Int
  | finite s u => some (signed s (u / unitsPerOne))
  | _ => none

/-- A number is false as a condition only when it is zero. -/
def isZero : Double → Bool
  | finite _ u => u = 0
  | _ => false

end Double

end GrammarAudit
