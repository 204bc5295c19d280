import GrammarAudit.Number.Double
import GrammarAudit.Number.Reading
import GrammarAudit.Text.Quoted

/-!
# Plain scalars

A scalar without quotes stands for a truth value, null, a number, a date or a text, by its
spelling.

- `PlainKind`, `plainKind`: what a spelling stands for.
- `Scalar`, `Scalar.ofPlain`, `Scalar.ofType`: the value itself, by spelling or by a named type.
- `Fault`: why a document cannot be read.
-/

namespace GrammarAudit.Yaml

/-- Why a document cannot be read: it is malformed, or the spelling of a number or a date promises
one that does not exist. -/
inductive Fault where
  | malformed
  | noValue (message : String)
deriving DecidableEq, Repr

/-- What the spelling of a plain scalar stands for. The reserved spellings are the merge key and
the default value. -/
inductive PlainKind where
  | null
  | bool
  | int
  | real
  | date
  | reserved
  | text
deriving DecidableEq, Repr

/-- The value of a scalar. A date only counts as something that is no text. -/
inductive Scalar where
  | null
  | bool (b : Bool)
  | int (n : Int)
  | real (x : Double)
  | date (shown : String)
  | text (s : String)
deriving DecidableEq, Repr

/-! ## Spellings -/

/-- The spellings of true. -/
def trueWords : List String :=
  ["yes", "Yes", "YES", "true", "True", "TRUE", "on", "On", "ON"]

/-- The spellings of false. -/
def falseWords : List String :=
  ["no", "No", "NO", "false", "False", "FALSE", "off", "Off", "OFF"]

/-- The spellings of null. -/
def nullWords : List String :=
  ["~", "null", "Null", "NULL", ""]

/-- The spellings of infinity, after the point. -/
def infinityWords : List String := ["inf", "Inf", "INF"]

/-- The spellings of what is no number, after the point. -/
def nanWords : List String := ["nan", "NaN", "NAN"]

/-- The spellings that stand for something only in places of their own. -/
def reservedWords : List String := ["=", "<<"]

/-- A digit or an underscore. -/
def isSpacedDigit (c : Char) : Bool :=
  c.isDigit || c = '_'

/-- One or more characters of a class. -/
def isRun (p : Char → Bool) (s : List Char) : Bool :=
  !s.isEmpty && s.all p

/-- A digit and further digits or underscores. -/
def startsWithDigit (s : List Char) : Bool :=
  (s.head?.map Char.isDigit).getD false && s.all isSpacedDigit

/-- The same without zero as the first digit. -/
def startsWithNonzero (s : List Char) : Bool :=
  startsWithDigit s && s.head? ≠ some '0'

/-- A part of a number in base sixty: one digit, or two below sixty. -/
def isSixtieth : List Char → Bool
  | [a] => a.isDigit
  | [a, b] => '0' ≤ a && a ≤ '5' && b.isDigit
  | _ => false

/-- The parts of a text between colons. -/
def colonParts (s : List Char) : List (List Char) :=
  s.foldr (fun c parts =>
    if c = ':' then [] :: parts
    else match parts with
      | part :: rest => (c :: part) :: rest
      | [] => [[c]]) [[]]

/-- A hexadecimal digit or an underscore. -/
def isSpacedHex (c : Char) : Bool :=
  isSpacedDigit c || ('a' ≤ c && c ≤ 'f') || ('A' ≤ c && c ≤ 'F')

/-- The spellings of integers without a sign: binary, octal, hexadecimal, decimal and base
sixty. -/
def isUnsignedInt (s : List Char) : Bool :=
  match s with
  | '0' :: rest =>
    rest.isEmpty || rest.all (fun c => ('0' ≤ c && c ≤ '7') || c = '_') ||
      (match rest with
      | 'b' :: digits => isRun (fun c => c = '0' || c = '1' || c = '_') digits
      | 'x' :: digits => isRun isSpacedHex digits
      | _ => false)
  | _ =>
    match colonParts s with
    | first :: parts => startsWithNonzero first && parts.all isSixtieth
    | [] => false

/-- Nothing, or an exponent with a sign. -/
def isExponent : List Char → Bool
  | [] => true
  | e :: sign :: digits =>
    (e = 'e' || e = 'E') && (sign = '+' || sign = '-') && isRun Char.isDigit digits
  | _ => false

/-- Digits after a point and an exponent, if there is one. -/
def isFraction (s : List Char) : Bool :=
  isExponent (s.dropWhile isSpacedDigit)

/-- The spellings of decimal fractions that start with a digit, some parts before the point in
base sixty. -/
def isPointed (s : List Char) : Bool :=
  let whole := s.takeWhile (· != '.')
  match s.dropWhile (· != '.'), colonParts whole with
  | '.' :: fraction, [digits] => startsWithDigit digits && isFraction fraction
  | '.' :: fraction, digits :: parts =>
    startsWithDigit digits && parts.all isSixtieth && fraction.all isSpacedDigit
  | _, _ => false

/-- The spellings of fractions and infinities, after the sign. -/
def isSignedReal (s : List Char) : Bool :=
  isPointed s ||
    match s with
    | '.' :: word => infinityWords.contains (String.ofList word)
    | _ => false

/-- The spellings of fractions that start with a point, which take no sign. -/
def isUnsignedReal (s : List Char) : Bool :=
  match s with
  | '.' :: rest =>
    nanWords.contains (String.ofList rest) ||
      ((rest.head?.map Char.isDigit).getD false && isFraction rest)
  | _ => false

/-- A text without a sign at its start. -/
def dropSign : List Char → List Char
  | c :: rest => if c = '+' ∨ c = '-' then rest else c :: rest
  | [] => []

/-- A run of digits of at least one and at most so many characters, and what follows. -/
def digitsUpTo (most : Nat) (s : List Char) : Option (List Char × List Char) :=
  let digits := (s.take most).takeWhile Char.isDigit
  if digits.isEmpty then none else some (digits, s.drop digits.length)

/-- What follows a given number of digits. -/
def exactDigits? (n : Nat) (s : List Char) : Option (List Char) :=
  if isRun Char.isDigit (s.take n) && (s.take n).length = n then some (s.drop n) else none

/-- What follows a character. -/
def afterChar? (mark : Char) : List Char → Option (List Char)
  | c :: rest => if c = mark then some rest else none
  | [] => none

/-- The spellings of a time zone, or nothing. -/
def isZone (s : List Char) : Bool :=
  match s.dropWhile fun c => c = ' ' || c = '\t' with
  | [] => s.isEmpty
  | ['Z'] => true
  | sign :: rest =>
    (sign = '+' || sign = '-') &&
      match digitsUpTo 2 rest with
      | some (_, []) => true
      | some (_, ':' :: minutes) => minutes.length = 2 && isRun Char.isDigit minutes
      | _ => false

/-- The spellings of a time of day, with or without a zone. -/
def isDayTime (s : List Char) : Bool :=
  let parsed := do
    let (_, rest) ← digitsUpTo 2 s
    let rest ← afterChar? ':' rest >>= exactDigits? 2
    afterChar? ':' rest >>= exactDigits? 2
  match parsed with
  | some ('.' :: rest) => isZone (rest.dropWhile Char.isDigit)
  | some rest => isZone rest
  | none => false

/-- The spellings of a date with a time of day. -/
def isDateTime (s : List Char) : Bool :=
  let parsed := do
    let rest ← exactDigits? 4 s >>= afterChar? '-'
    let (_, rest) ← digitsUpTo 2 rest
    let (_, rest) ← digitsUpTo 2 (← afterChar? '-' rest)
    match rest with
    | 'T' :: time => some time
    | 't' :: time => some time
    | ' ' :: time => some (time.dropWhile fun c => c = ' ' || c = '\t')
    | '\t' :: time => some (time.dropWhile fun c => c = ' ' || c = '\t')
    | _ => none
  match parsed with
  | some time => isDayTime time
  | none => false

/-- The spellings of a date of four, two and two digits. -/
def isDay (s : List Char) : Bool :=
  (exactDigits? 4 s >>= afterChar? '-' >>= exactDigits? 2 >>= afterChar? '-' >>=
    exactDigits? 2) = some []

/-- What a plain scalar stands for. -/
def plainKind (s : List Char) : PlainKind :=
  let word := String.ofList s
  if trueWords.contains word || falseWords.contains word then .bool
  else if nullWords.contains word then .null
  else if reservedWords.contains word then .reserved
  else if isUnsignedInt (dropSign s) then .int
  else if isSignedReal (dropSign s) || isUnsignedReal s then .real
  else if isDay s || isDateTime s then .date
  else .text

/-! ## Values -/

/-- The value of digits in a base. -/
def valueIn (base : Nat) (digits : List Char) : Nat :=
  digits.foldl (fun n c =>
    base * n + (if c.isDigit then c.toNat - '0'.toNat else c.toLower.toNat - 'a'.toNat + 10)) 0

/-- Whether a character is a digit of a base. -/
def isDigitIn (base : Nat) (c : Char) : Bool :=
  if c.isDigit then c.toNat - '0'.toNat < base
  else base = 16 && (('a' ≤ c && c ≤ 'f') || ('A' ≤ c && c ≤ 'F'))

/-- The number that digits of a base spell; there has to be at least one. -/
def digitsIn (base : Nat) (digits : List Char) : Except Fault Nat :=
  if isRun (isDigitIn base) digits then .ok (valueIn base digits)
  else
    .error (.noValue ("invalid literal for int() with base " ++ Text.decimal base ++ ": " ++
      Text.quote (String.ofList digits)))

/-- The value of an integer without a sign and underscores. -/
def unsignedInt (s : List Char) : Except Fault Nat :=
  match s with
  | ['0'] => .ok 0
  | '0' :: 'b' :: digits => digitsIn 2 digits
  | '0' :: 'x' :: digits => digitsIn 16 digits
  | '0' :: _ => digitsIn 8 s
  | _ => (colonParts s).foldlM (fun n part => (60 * n + ·) <$> digitsIn 10 part) 0

/-- The value of an integer. -/
def intValue (s : List Char) : Except Fault Scalar := do
  let n ← unsignedInt ((dropSign s).filter (· != '_'))
  return .int (if s.head? = some '-' then -n else n)

/-- A floating-point number times a natural one, rounded. -/
def scale (x : Double) (n : Nat) : Double :=
  match x with
  | .finite s u => .ofRatio s (u * n) 1
  | other => other

/-- The value of a number in base sixty, from its parts, the last one first. -/
def sumSixtieths (sum : Double) (weight : Nat) : List (List Char) → Double
  | [] => sum
  | part :: parts =>
    let value := (readDecimal? false part).getD .nan
    sumSixtieths (sum.add (scale value weight)) (60 * weight) parts

/-- The value of a fraction without a sign and underscores, in small letters. -/
def unsignedReal (s : List Char) : Except Fault Double :=
  if s = ".inf".toList then .ok (.infinite false)
  else if s = ".nan".toList then .ok .nan
  else if ':' ∈ s then .ok (sumSixtieths (.ofInt 0) 1 (colonParts s).reverse)
  else
    match readDecimal? false s with
    | some x => .ok x
    | none =>
      .error (.noValue ("could not convert string to float: " ++ Text.quote (String.ofList s)))

/-- The value of a fraction. -/
def realValue (s : List Char) : Except Fault Scalar := do
  let x ← unsignedReal (((dropSign s).filter (· != '_')).map Char.toLower)
  return .real (if s.head? = some '-' then x.neg else x)

/-- The number of days of a month. -/
def daysIn (year month : Nat) : Nat :=
  if month = 2 then
    if year % 4 = 0 ∧ (year % 100 ≠ 0 ∨ year % 400 = 0) then 29 else 28
  else if month ∈ [4, 6, 9, 11] then 30
  else 31

/-- A date that exists, as it is shown. -/
def existingDay (s : List Char) : Except Fault Scalar :=
  let year := valueIn 10 (s.take 4)
  let month := valueIn 10 ((s.drop 5).take 2)
  let day := valueIn 10 ((s.drop 8).take 2)
  if year = 0 then .error (.noValue "year 0 is out of range")
  else if month = 0 ∨ 12 < month then .error (.noValue "month must be in 1..12")
  else if day = 0 ∨ daysIn year month < day then
    .error (.noValue "day is out of range for month")
  else
    .ok (.date ("datetime.date(" ++ Text.decimal year ++ ", " ++ Text.decimal month ++ ", " ++
      Text.decimal day ++ ")"))

/-- The value of a date. One with a time of day is taken as it is. -/
def dateValue (s : List Char) : Except Fault Scalar :=
  if isDay s then existingDay s else .ok (.date (String.ofList s))

/-- The value of a plain scalar. -/
def Scalar.ofPlain (s : List Char) : Except Fault Scalar :=
  match plainKind s with
  | .null => .ok .null
  | .bool => .ok (.bool (trueWords.contains (String.ofList s)))
  | .int => intValue s
  | .real => realValue s
  | .date => dateValue s
  | .reserved => .error .malformed
  | .text => .ok (.text (String.ofList s))

/-- The value of a scalar of a named type. -/
def Scalar.ofType (type : String) (s : List Char) : Except Fault Scalar :=
  match type with
  | "str" => .ok (.text (String.ofList s))
  | "null" => .ok .null
  | "bool" => if plainKind s = .bool then ofPlain s else .error .malformed
  | "int" => if s = [] then .error .malformed else intValue s
  | "float" => if s = [] then .error .malformed else realValue s
  | "timestamp" => if plainKind s = .date then dateValue s else .error .malformed
  | _ => .error .malformed

/-- A scalar as messages show it. -/
def Scalar.display : Scalar → String
  | null => "None"
  | bool b => if b then "True" else "False"
  | int n => Text.decimal n
  | real x => x.text
  | date shown => shown
  | text s => Text.quote s

/-- The number that a scalar counts as when it is a key, if it counts as one. -/
def Scalar.number? : Scalar → Option Number
  | bool b => some (.int (if b then 1 else 0))
  | int n => some (.int n)
  | real x => some (.real x)
  | _ => none

/-- Whether two scalars are the same key. Numbers are compared by value. -/
def Scalar.sameKey (a b : Scalar) : Bool :=
  match a.number?, b.number? with
  | some m, some n => m.same n
  | none, none => a = b
  | _, _ => false

end GrammarAudit.Yaml
