import GrammarAudit.Number.Double
import GrammarAudit.Text.Numeral

/-!
# The shortest decimal of a number

A finite number is written with the fewest decimal digits that read back to it, and of those with
the ones nearest to it. The grids of the powers of ten are tried from the coarsest to the finest;
the first with a point among the decimals that round to the number gives the digits.

- `Decimal`: digits and a power of ten.
- `Double.shortest`: the digits of a positive finite number.
- `Double.text`: its written form, positional where the leading digit stands between the fourth
  place after the point and the sixteenth before it.
-/

namespace GrammarAudit

open Text

/-- The decimal number `digits * 10 ^ exponent`. -/
structure Decimal where
  digits : Nat
  exponent : Int
deriving DecidableEq, Repr

namespace Double

/-- The decimals that round to a number lie between two ends, given here in quarters of the
smallest number; the ends belong to them when `closed` holds. -/
structure Basin where
  low : Nat
  mid : Nat
  high : Nat
  closed : Bool

/-- The decimals that round to `units`. Below a power of two the neighbour is only half as far. -/
def basin (units : Nat) : Basin :=
  let gap := spacing units
  let leading := units / gap
  { low := 4 * units - (if leading = Nat.pow 2 52 ∧ 1 < gap then gap else 2 * gap)
    mid := 4 * units
    high := 4 * units + 2 * gap
    closed := leading % 2 = 0 }

/-- Whether the point `num / den` lies among the decimals that round to the number. -/
def Basin.holds (b : Basin) (num den : Nat) : Bool :=
  if b.closed then b.low * den ≤ num && num ≤ b.high * den
  else b.low * den < num && num < b.high * den

/-- The point of the grid `10 ^ exponent` that reads back, the nearer of two and the even one on a
tie. -/
def Basin.onGrid? (b : Basin) (exponent : Int) : Option Decimal :=
  let num := 4 * unitsPerOne * Nat.pow 10 exponent.toNat
  let den := Nat.pow 10 (-exponent).toNat
  let d := b.mid * den / num
  match b.holds (d * num) den, b.holds ((d + 1) * num) den with
  | true, true =>
    let below := b.mid * den - d * num
    let above := (d + 1) * num - b.mid * den
    some ⟨if below < above ∨ (below = above ∧ d % 2 = 0) then d else d + 1, exponent⟩
  | true, false => some ⟨d, exponent⟩
  | false, true => some ⟨d + 1, exponent⟩
  | false, false => none

/-- The exponents of the grids, from the largest number's down to the smallest's. -/
def gridExponents : List Int :=
  (List.range 633).map fun i : Nat => 308 - (i : Int)

/-- The shortest decimal that reads back to `units` multiples of the smallest number. -/
def shortest (units : Nat) : Decimal :=
  (gridExponents.findSome? (basin units).onGrid?).getD ⟨0, 0⟩

/-- The leading digit's power of ten from which a number is written positionally. -/
def positionalFrom : Int := -4

/-- The leading digit's power of ten from which a number is written with an exponent. -/
def positionalBelow : Int := 16

/-- A decimal written out in full, with at least one digit on either side of the point. -/
def positional (digits : List Char) (point : Int) : List Char :=
  if point ≤ 0 then '0' :: '.' :: List.replicate (-point).toNat '0' ++ digits
  else if digits.length ≤ point then
    digits ++ List.replicate (point.toNat - digits.length) '0' ++ ['.', '0']
  else digits.take point.toNat ++ '.' :: digits.drop point.toNat

/-- A decimal written with one digit before the point and a signed exponent of two digits or
more. -/
def scientific (digits : List Char) (exponent : Int) : List Char :=
  let tail := digits.drop 1
  digits.take 1 ++ (if tail = [] then [] else '.' :: tail)
    ++ 'e' :: (if exponent < 0 then '-' else '+') :: padded 2 (natNumeral 10 exponent.natAbs)

/-- The written form of a positive decimal. -/
def decimalText (d : Decimal) : List Char :=
  let digits := natNumeral 10 d.digits
  let point := digits.length + d.exponent
  if positionalFrom < point ∧ point ≤ positionalBelow then positional digits point
  else scientific digits (point - 1)

/-- The written form of a number. -/
def text : Double → String
  | finite s u =>
    let digits := if u = 0 then ['0', '.', '0'] else decimalText (shortest u)
    String.ofList (if s then '-' :: digits else digits)
  | infinite s => if s then "-inf" else "inf"
  | nan => "nan"

end Double

end GrammarAudit
