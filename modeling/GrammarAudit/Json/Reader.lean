import GrammarAudit.Json.Basic

/-!
# JSON text, read

- `Json.readQuoted?`: a text in quotes.
- `Json.readUnsigned?`: a number without its sign; one without point and exponent is an integer.
- `Json.readValue?`: a value at the start of a text.
- `Json.read?`: the value that a whole text holds.
-/

namespace GrammarAudit.Json

/-- A blank between the parts of a JSON text. -/
def isGap (c : Char) : Bool :=
  c = ' ' || c = '\t' || c = '\n' || c = '\r'

/-- A text without the blanks at its start. -/
def skipGaps (s : List Char) : List Char :=
  s.dropWhile isGap

/-! ## Texts -/

/-- The value of a hexadecimal digit. -/
def hexValue? (c : Char) : Option Nat :=
  if c.isDigit then some (c.toNat - '0'.toNat)
  else if 'a' ≤ c ∧ c ≤ 'f' then some (c.toNat - 'a'.toNat + 10)
  else if 'A' ≤ c ∧ c ≤ 'F' then some (c.toNat - 'A'.toNat + 10)
  else none

/-- The value of hexadecimal digits. -/
def hexNumber? (digits : List Char) : Option Nat :=
  digits.foldlM (fun n c => (hexValue? c).map (16 * n + ·)) 0

/-- The code point of an escape of one letter. -/
def shortEscape? (c : Char) : Option Nat :=
  if c = '"' ∨ c = '\\' ∨ c = '/' then some c.toNat
  else if c = 'n' then some 0xa
  else if c = 'r' then some 0xd
  else if c = 't' then some 0x9
  else if c = 'b' then some 0x8
  else if c = 'f' then some 0xc
  else none

/-- Reads up to the closing quote: the code points, surrogates apart, and what follows. Control
characters below the space have to be escaped. -/
def readUnits? : List Char → Option (List Nat × List Char)
  | [] => none
  | '"' :: rest => some ([], rest)
  | '\\' :: 'u' :: a :: b :: c :: d :: rest => do
    let n ← hexNumber? [a, b, c, d]
    let (units, tail) ← readUnits? rest
    some (n :: units, tail)
  | ['\\'] => none
  | '\\' :: c :: rest => do
    let n ← shortEscape? c
    let (units, tail) ← readUnits? rest
    some (n :: units, tail)
  | c :: rest =>
    if c.toNat < 0x20 then none
    else (readUnits? rest).map fun (units, tail) => (c.toNat :: units, tail)

/-- A high surrogate. -/
def isHighSurrogate (n : Nat) : Bool :=
  0xd800 ≤ n && n < 0xdc00

/-- A low surrogate. -/
def isLowSurrogate (n : Nat) : Bool :=
  0xdc00 ≤ n && n < 0xe000

/-- The character of a code point; a surrogate that stands alone becomes the replacement
character. -/
def codePoint (n : Nat) : Char :=
  if isHighSurrogate n || isLowSurrogate n then Char.ofNat 0xfffd else Char.ofNat n

/-- The characters of a list of code points, pairs of surrogates joined. -/
def joinSurrogates : List Nat → List Char
  | [] => []
  | [n] => [codePoint n]
  | high :: low :: rest =>
    if isHighSurrogate high && isLowSurrogate low then
      Char.ofNat (0x10000 + (high - 0xd800) * 0x400 + (low - 0xdc00)) :: joinSurrogates rest
    else codePoint high :: joinSurrogates (low :: rest)

/-- Reads a text after its opening quote. -/
def readQuoted? (s : List Char) : Option (String × List Char) :=
  (readUnits? s).map fun (units, tail) => (String.ofList (joinSurrogates units), tail)

/-! ## Numbers -/

/-- The value of decimal digits. -/
def decimalValue (digits : List Char) : Nat :=
  digits.foldl (fun n c => 10 * n + (c.toNat - '0'.toNat)) 0

/-- The leading decimal digits of a text and what follows. -/
def spanDigits (s : List Char) : List Char × List Char :=
  (s.takeWhile Char.isDigit, s.dropWhile Char.isDigit)

/-- Reads an exponent with at least one digit; without one the text stays as it is. -/
def readExponent (s : List Char) : Option Int × List Char :=
  match s with
  | c :: rest =>
    if c = 'e' ∨ c = 'E' then
      let (negative, rest) :=
        match rest with
        | '-' :: tail => (true, tail)
        | '+' :: tail => (false, tail)
        | _ => (false, rest)
      let (digits, tail) := spanDigits rest
      if digits = [] then (none, s)
      else (some (if negative then -decimalValue digits else decimalValue digits), tail)
    else (none, s)
  | [] => (none, s)

/-- Reads a fraction with at least one digit; without one the text stays as it is. -/
def readFraction (s : List Char) : List Char × List Char :=
  match s with
  | '.' :: rest => if (spanDigits rest).1 = [] then ([], s) else spanDigits rest
  | _ => ([], s)

/-- Reads an unsigned number that starts with a digit. Only zero starts with the digit zero. -/
def readUnsigned? (negative : Bool) (s : List Char) : Option (Json × List Char) :=
  let (whole, rest) :=
    match s with
    | '0' :: rest => (['0'], rest)
    | _ => spanDigits s
  if whole = [] then none
  else
    let (fraction, rest) := readFraction rest
    let (exponent, rest) := readExponent rest
    if fraction = [] ∧ exponent = none then
      let n : Int := decimalValue whole
      some (int (if negative then -n else n), rest)
    else
      let x := Double.ofDecimal negative (decimalValue (whole ++ fraction))
        (exponent.getD 0 - fraction.length)
      some (num (.real x), rest)

/-- The words that stand for values. -/
def words : List (List Char × Json) := [
  ("null".toList, null), ("true".toList, bool true), ("false".toList, bool false),
  ("NaN".toList, num (.real .nan)), ("Infinity".toList, num (.real (.infinite false))),
  ("-Infinity".toList, num (.real (.infinite true)))]

/-- Reads a word that stands for a value. -/
def readWord? (s : List Char) : Option (Json × List Char) :=
  words.findSome? fun (word, value) =>
    if word.isPrefixOf s then some (value, s.drop word.length) else none

/-- Reads a number or a word. -/
def readAtom? (s : List Char) : Option (Json × List Char) :=
  (readWord? s).or <|
    match s with
    | '-' :: rest => readUnsigned? true rest
    | _ => readUnsigned? false s

/-! ## Values -/

mutual

/-- Reads a value. The fuel bounds the nesting and the number of entries. -/
def readValue? : Nat → List Char → Option (Json × List Char)
  | 0, _ => none
  | fuel + 1, s =>
    match s with
    | '"' :: rest => (readQuoted? rest).map fun (text, tail) => (str text, tail)
    | '[' :: rest =>
      match skipGaps rest with
      | ']' :: tail => some (list [], tail)
      | body => (readItems? fuel body).map fun (items, tail) => (list items, tail)
    | '{' :: rest =>
      match skipGaps rest with
      | '}' :: tail => some (object [], tail)
      | body => (readFields? fuel body).map fun (fields, tail) => (ofFields fields, tail)
    | _ => readAtom? s

/-- Reads the items of a list that is not empty, up to its closing bracket. -/
def readItems? : Nat → List Char → Option (List Json × List Char)
  | 0, _ => none
  | fuel + 1, s => do
    let (item, rest) ← readValue? fuel s
    match skipGaps rest with
    | ']' :: tail => some ([item], tail)
    | ',' :: more =>
      let (items, tail) ← readItems? fuel (skipGaps more)
      some (item :: items, tail)
    | _ => none

/-- Reads the fields of an object that is not empty, up to its closing brace. -/
def readFields? : Nat → List Char → Option (List (String × Json) × List Char)
  | 0, _ => none
  | fuel + 1, s =>
    match s with
    | '"' :: rest => do
      let (name, rest) ← readQuoted? rest
      match skipGaps rest with
      | ':' :: body =>
        let (value, rest) ← readValue? fuel (skipGaps body)
        match skipGaps rest with
        | '}' :: tail => some ([(name, value)], tail)
        | ',' :: more =>
          let (fields, tail) ← readFields? fuel (skipGaps more)
          some ((name, value) :: fields, tail)
        | _ => none
      | _ => none
    | _ => none

end

/-- Reads a text that holds one value and blanks. -/
def read? (text : String) : Option Json :=
  let s := skipGaps text.toList
  match readValue? (2 * s.length + 2) s with
  | some (value, rest) => if skipGaps rest = [] then some value else none
  | none => none

end GrammarAudit.Json
