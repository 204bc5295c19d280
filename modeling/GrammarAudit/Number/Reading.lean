import GrammarAudit.Number.Basic
import GrammarAudit.Text.Blank
import GrammarAudit.Text.WordChar

/-!
# Reading numbers

Numbers as people type them: blanks around are ignored, digits may be of any script, and a single
underscore may stand between two digits.

- `readInt?`: an integer with an optional sign.
- `readDouble?`: a decimal number with an optional point and exponent, an infinity, or `nan`.
-/

namespace GrammarAudit

open Text

/-- Whether every underscore stands between two digits, given whether a digit comes before. -/
def underscoresSplitDigits (afterDigit : Bool) : List Char → Bool
  | [] => true
  | '_' :: rest =>
    afterDigit && (rest.head?.map Char.isDigit).getD false && underscoresSplitDigits false rest
  | c :: rest => underscoresSplitDigits c.isDigit rest

/-- A typed number with plain digits, without the blanks around and the underscores inside. -/
def plainDigits? (s : String) : Option (List Char) :=
  let plain := (trim s.toList).map fun c =>
    match digitValue? c with
    | some d => Nat.digitChar d
    | none => c
  if underscoresSplitDigits false plain then some (plain.filter (· != '_')) else none

/-- A sign in front of a text, and what follows it. -/
def takeSign : List Char → Bool × List Char
  | '-' :: rest => (true, rest)
  | '+' :: rest => (false, rest)
  | s => (false, s)

/-- The value of a run of decimal digits. -/
def digitsValue (digits : List Char) : Nat :=
  digits.foldl (fun n c => 10 * n + (c.toNat - '0'.toNat)) 0

/-- Reads an integer. -/
def readInt? (s : String) : Option Int := do
  let (negative, digits) := takeSign (← plainDigits? s)
  if digits.isEmpty || !digits.all Char.isDigit then none
  else if negative then some (-digitsValue digits)
  else some (digitsValue digits)

/-- Reads the exponent that ends a decimal number; nothing is the exponent zero. -/
def readExponent? : List Char → Option Int
  | [] => some 0
  | c :: rest =>
    if c = 'e' ∨ c = 'E' then
      let (negative, digits) := takeSign rest
      if digits.isEmpty || !digits.all Char.isDigit then none
      else if negative then some (-digitsValue digits)
      else some (digitsValue digits)
    else none

/-- Reads an unsigned decimal number that starts with a digit or a point. -/
def readDecimal? (negative : Bool) (s : List Char) : Option Double := do
  let whole := s.takeWhile Char.isDigit
  let rest := s.dropWhile Char.isDigit
  let (part, rest) :=
    match rest with
    | '.' :: after => (after.takeWhile Char.isDigit, after.dropWhile Char.isDigit)
    | _ => ([], rest)
  if whole.isEmpty && part.isEmpty then none
  let exponent ← readExponent? rest
  some (.ofDecimal negative (digitsValue (whole ++ part)) (exponent - part.length))

/-- Reads a floating-point number. -/
def readDouble? (s : String) : Option Double := do
  let (negative, body) := takeSign (← plainDigits? s)
  let word := String.ofList (body.map Char.toLower)
  if word = "inf" ∨ word = "infinity" then some (.infinite negative)
  else if word = "nan" then some .nan
  else readDecimal? negative body

end GrammarAudit
