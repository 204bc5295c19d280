/-!
# Numerals

Whole numbers written in a base, most significant digit first and without leading zeros.

- `natNumeral`, `intNumeral`: the digits of a number, a minus sign before a negative one.
- `padded`: a numeral filled up with zeros to a least width.
-/

namespace GrammarAudit.Text

/-- The digits of a natural number in a base from two to sixteen, in lower case. -/
def natNumeral (base n : Nat) : List Char :=
  Nat.toDigits base n

/-- The digits of an integer, after a minus sign when it is negative. -/
def intNumeral (base : Nat) : Int → List Char
  | .ofNat n => natNumeral base n
  | .negSucc n => '-' :: natNumeral base (n + 1)

/-- The decimal text of an integer. -/
def decimal (n : Int) : String :=
  String.ofList (intNumeral 10 n)

/-- A numeral filled up on the left with zeros to at least `width` digits. -/
def padded (width : Nat) (digits : List Char) : List Char :=
  List.replicate (width - digits.length) '0' ++ digits

end GrammarAudit.Text
