import GrammarAudit.Json.Basic
import GrammarAudit.Yaml.Cursor
import GrammarAudit.Yaml.Scalar

/-!
# YAML text, written

JSON values in block style. The fields of an object are in the order of their names, the items of
a list are level with the name of the list, and texts are written without quotes where they read
back as they are. Long lines are broken at spaces.

- `ScalarStyle`, `scalarStyle`: the three ways to write a text, and which one is taken.
- `Yaml.write`: the text of a value.
-/

namespace GrammarAudit.Yaml

open Text

/-! ## Styles -/

/-- The ways to write a text. -/
inductive ScalarStyle where
  | plain
  | single
  | double
deriving DecidableEq, Repr

/-- A line break as it counts when a text is written: a carriage return is none. -/
def breaksLine (c : Char) : Bool :=
  isBreak c && c ≠ '\r'

/-- A character that only double quotes can hold. -/
def isSpecial (c : Char) : Bool :=
  let n := c.toNat
  !(c = '\n' || (0x20 ≤ n && n ≤ 0x7e) || n = 0x85 || (0xa0 ≤ n && n ≤ 0xd7ff) ||
    (0xe000 ≤ n && n ≤ 0xfffd && c ≠ byteOrderMark) || (0x10000 ≤ n && n < 0x10ffff))

/-- Whether two characters that follow each other are in two classes. -/
def hasPair (p q : Char → Bool) : List Char → Bool
  | a :: b :: rest => (p a && q b) || hasPair p q (b :: rest)
  | _ => false

/-- Whether a text needs double quotes: for a special character, or for a space beside a line
break. -/
def needsDouble (s : List Char) : Bool :=
  s.any isSpecial || hasPair (· = ' ') breaksLine s || hasPair breaksLine (· = ' ') s

/-- A character that no text without quotes starts with. -/
def isFirstIndicator (c : Char) : Bool :=
  c ∈ ['#', ',', '[', ']', '{', '}', '&', '*', '!', '|', '>', '\'', '"', '%', '@', '`']

/-- Whether a text starts like a mark of the format. -/
def startsLikeMark (s : List Char) : Bool :=
  match s with
  | [] => false
  | c :: rest =>
    isFirstIndicator c || ((c = '?' || c = '-') && rest.head?.all (· = ' ')) ||
      "---".toList.isPrefixOf s || "...".toList.isPrefixOf s

/-- Whether a text holds a mark of the format: a colon at a word's end, or a number sign at its
start. -/
def holdsMark (s : List Char) : Bool :=
  s.getLast? = some ':' || hasPair (· = ':') (· = ' ') s || hasPair (· = ' ') (· = '#') s

/-- Whether a text reads back as itself when it has no quotes. -/
def isPlainText (s : List Char) : Bool :=
  plainKind s = .text && !s.any (fun c => isSpecial c || breaksLine c) &&
    s.head? ≠ some ' ' && s.getLast? ≠ some ' ' && !startsLikeMark s && !holdsMark s

/-- The way to write a text: without quotes if it can be, else in single quotes if it can be. -/
def scalarStyle (s : List Char) : ScalarStyle :=
  if isPlainText s then .plain else if needsDouble s then .double else .single

/-! ## Lines -/

/-- Where the lines of a text may be broken: the indentation of further lines, and the column after
which a line is full, if lines are broken at all. -/
structure Folding where
  indent : Nat
  limit : Option Nat := some 80
deriving DecidableEq, Repr

/-- Whether a line is full at a column. -/
def Folding.isFull (f : Folding) (column : Nat) : Bool :=
  f.limit.any (· < column)

/-- A line break and an indentation. -/
def freshLine (indent : Nat) : List Char :=
  '\n' :: List.replicate indent ' '

/-! ## Plain and single-quoted texts -/

/-- A character between single quotes; a quote is written twice. -/
def singleQuotedChar (c : Char) : List Char :=
  if c = '\'' then ['\'', '\''] else [c]

/-- The text from a column on, given the character before. A lone space becomes a line break where
the line is full, and a first line break is written twice, so that it does not read as a space. -/
def foldText (f : Folding) (shown : Char → List Char) (previous : Option Char) (column : Nat) :
    List Char → List Char
  | [] => []
  | c :: rest =>
    if c = ' ' then
      let isLone := previous.any (· ≠ ' ') && rest.head?.any (· ≠ ' ')
      if isLone && f.isFull column then
        freshLine f.indent ++ foldText f shown (some c) f.indent rest
      else c :: foldText f shown (some c) (column + 1) rest
    else if breaksLine c then
      let extra := if c = '\n' && !previous.any breaksLine then ['\n'] else []
      let after := if rest.head?.any breaksLine then [] else List.replicate f.indent ' '
      extra ++ c :: after ++ foldText f shown (some c) f.indent rest
    else shown c ++ foldText f shown (some c) (column + (shown c).length) rest

/-- A text without quotes. -/
def plainText (f : Folding) (column : Nat) (s : List Char) : List Char :=
  foldText f (fun c => [c]) none column s

/-- A text in single quotes. -/
def singleQuoted (f : Folding) (column : Nat) (s : List Char) : List Char :=
  '\'' :: foldText f singleQuotedChar none (column + 1) s ++ ['\'']

/-! ## Double-quoted texts -/

/-- A character that double quotes hold as it is. -/
def isUnescaped (c : Char) : Bool :=
  let n := c.toNat
  (0x20 ≤ n && n ≤ 0x7e && c ≠ '"' && c ≠ '\\') ||
    (((0xa0 ≤ n && n ≤ 0xd7ff) || (0xe000 ≤ n && n ≤ 0xfffd)) && !isBreak c &&
      c ≠ byteOrderMark)

/-- The letter of an escape, for the characters that have one. -/
def escapeLetter? (c : Char) : Option Char :=
  [(0x0, '0'), (0x7, 'a'), (0x8, 'b'), (0x9, 't'), (0xa, 'n'), (0xb, 'v'), (0xc, 'f'), (0xd, 'r'),
    (0x1b, 'e'), (0x22, '"'), (0x5c, '\\'), (0x85, 'N'), (0xa0, '_'), (0x2028, 'L'),
    (0x2029, 'P')].lookup c.toNat

/-- A code point as an escape of two, four or eight hexadecimal digits. -/
def codeEscape (n : Nat) : List Char :=
  let digits := (natNumeral 16 n).map Char.toUpper
  if n < 0x100 then 'x' :: padded 2 digits
  else if n < 0x10000 then 'u' :: padded 4 digits
  else 'U' :: padded 8 digits

/-- The escape of a character. -/
def escapeOf (c : Char) : List Char :=
  match escapeLetter? c with
  | some letter => ['\\', letter]
  | none => '\\' :: codeEscape c.toNat

/-- A line break between double quotes: escaped, and so is a space that comes next. -/
def escapedFreshLine (f : Folding) (next : Option Char) : List Char :=
  '\\' :: freshLine f.indent ++ (if next = some ' ' then ['\\'] else [])

/-- The column after such a line break. -/
def escapedFreshColumn (f : Folding) (next : Option Char) : Nat :=
  if next = some ' ' then f.indent + 1 else f.indent

/-- The text between double quotes from a column on. `pending` is the text since the last escape
or line break, which is still to be written; `inside` says that a character came before. A full
line is broken before a space and after an escape, but not before the last character. -/
def escapeText (f : Folding) (inside : Bool) (column : Nat) (pending : List Char) :
    List Char → List Char
  | [] => pending
  | c :: rest =>
    let mayBreak := inside && !rest.isEmpty
    if isUnescaped c then
      if mayBreak && (c = ' ' || pending.isEmpty) && f.isFull (column + pending.length) then
        pending ++ escapedFreshLine f (some c) ++
          escapeText f true (escapedFreshColumn f (some c)) [c] rest
      else escapeText f true column (pending ++ [c]) rest
    else
      let shown := pending ++ escapeOf c
      let after := column + shown.length
      if mayBreak && f.isFull (after - 1) then
        shown ++ escapedFreshLine f rest.head? ++
          escapeText f true (escapedFreshColumn f rest.head?) [] rest
      else shown ++ escapeText f true after [] rest

/-- A text in double quotes. -/
def doubleQuoted (f : Folding) (column : Nat) (s : List Char) : List Char :=
  '"' :: escapeText f false (column + 1) [] s ++ ['"']

/-! ## Scalars -/

/-- A text in the style that it takes. -/
def writeText (f : Folding) (column : Nat) (s : List Char) : List Char :=
  match scalarStyle s with
  | .plain => plainText f column s
  | .single => singleQuoted f column s
  | .double => doubleQuoted f column s

/-- The name of a field. It stands on one line. -/
def writeKey (s : List Char) : List Char :=
  let f : Folding := ⟨0, none⟩
  match scalarStyle s with
  | .plain => plainText f 0 s
  | .single => if s.any breaksLine then doubleQuoted f 0 s else singleQuoted f 0 s
  | .double => doubleQuoted f 0 s

/-- The text of a floating-point number, which always has a point. -/
def realText (x : Double) : List Char :=
  match x with
  | .nan => ".nan".toList
  | .infinite negative => if negative then "-.inf".toList else ".inf".toList
  | .finite _ _ =>
    let digits := x.text.toList
    if '.' ∈ digits then digits
    else digits.takeWhile (· ≠ 'e') ++ ".0".toList ++ digits.dropWhile (· ≠ 'e')

/-- The text of a value that takes no lines of its own. -/
def writeScalar (f : Folding) (column : Nat) : Json → List Char
  | .null => "null".toList
  | .bool b => if b then "true".toList else "false".toList
  | .num (.int n) => (decimal n).toList
  | .num (.real x) => realText x
  | .str s => writeText f column s.toList
  | .list _ => ['[', ']']
  | .object _ => ['{', '}']

/-! ## Blocks -/

mutual

/-- A value with the fields of all objects in the order of their names. -/
def sortFields : Json → Json
  | .list items => .list (sortItems items)
  | .object fields => .object ((sortValues fields).mergeSort fun a b => a.1 ≤ b.1)
  | value => value

/-- Items with the fields of all objects in the order of their names. -/
def sortItems : List Json → List Json
  | [] => []
  | item :: rest => sortFields item :: sortItems rest

/-- Fields whose values have all fields in the order of their names. -/
def sortValues : List (String × Json) → List (String × Json)
  | [] => []
  | (name, value) :: rest => (name, sortFields value) :: sortValues rest

end

mutual

/-- A value from a column on, with its further lines at that column. -/
def writeBlock (column : Nat) : Json → List Char
  | .list (item :: rest) =>
    '-' :: ' ' :: writeBlock (column + 2) item ++ writeItems column rest
  | .object ((name, value) :: rest) =>
    writeField column name.toList value ++ writeFields column rest
  | value => writeScalar ⟨column, some 80⟩ column value

/-- The further items of a list, each on a new line. -/
def writeItems (column : Nat) : List Json → List Char
  | [] => []
  | item :: rest =>
    freshLine column ++ '-' :: ' ' :: writeBlock (column + 2) item ++ writeItems column rest

/-- The further fields of an object, each on a new line. -/
def writeFields (column : Nat) : List (String × Json) → List Char
  | [] => []
  | (name, value) :: rest =>
    freshLine column ++ writeField column name.toList value ++ writeFields column rest

/-- A field: its value is on the same line, or on new lines, indented if it is an object. -/
def writeField (column : Nat) (name : List Char) (value : Json) : List Char :=
  let key := writeKey name
  match value with
  | .list (item :: rest) =>
    key ++ ':' :: freshLine column ++ '-' :: ' ' :: writeBlock (column + 2) item ++
      writeItems column rest
  | .object ((inner, first) :: rest) =>
    key ++ ':' :: freshLine (column + 2) ++ writeField (column + 2) inner.toList first ++
      writeFields (column + 2) rest
  | value =>
    key ++ ':' :: ' ' :: writeScalar ⟨column + 2, some 80⟩ (column + key.length + 2) value

end

/-- The text of a value. -/
def write (value : Json) : String :=
  String.ofList (writeBlock 0 (sortFields value) ++ ['\n'])

end GrammarAudit.Yaml
