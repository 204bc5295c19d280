import GrammarAudit.Json.Basic

/-!
# JSON text, written

Texts are written as they are, with escapes only for the quote, the backslash and the control
characters below the space. Without an indentation everything stands on one line.

- `Json.quoted`: a text in quotes.
- `Json.write`: the text of a value.
-/

namespace GrammarAudit.Json

open Text

/-- One character inside quotes. -/
def escapeChar (c : Char) : List Char :=
  if c = '"' ∨ c = '\\' then ['\\', c]
  else if c = '\n' then ['\\', 'n']
  else if c = '\r' then ['\\', 'r']
  else if c = '\t' then ['\\', 't']
  else if c.toNat = 0x8 then ['\\', 'b']
  else if c.toNat = 0xc then ['\\', 'f']
  else if c.toNat < 0x20 then '\\' :: 'u' :: padded 4 (natNumeral 16 c.toNat)
  else [c]

/-- A text in quotes. -/
def quoted (s : String) : List Char :=
  '"' :: s.toList.flatMap escapeChar ++ ['"']

/-- The text of a number. Infinities and what is no number have words of their own. -/
def numberText : Number → List Char
  | .real (.infinite s) => if s then "-Infinity".toList else "Infinity".toList
  | .real .nan => "NaN".toList
  | n => n.text.toList

/-- A line break and the indentation of a depth; nothing when no indentation is asked for. -/
def lineBreak (indent : Option Nat) (depth : Nat) : List Char :=
  match indent with
  | none => []
  | some width => '\n' :: List.replicate (width * depth) ' '

/-- What stands between two entries. -/
def separator (indent : Option Nat) (depth : Nat) : List Char :=
  match indent with
  | none => [',', ' ']
  | some _ => ',' :: lineBreak indent depth

mutual

/-- The text of a value at a depth of nesting. -/
def writeAt (indent : Option Nat) (depth : Nat) : Json → List Char
  | null => "null".toList
  | bool b => if b then "true".toList else "false".toList
  | num n => numberText n
  | str s => quoted s
  | list [] => ['[', ']']
  | list (item :: rest) =>
    '[' :: lineBreak indent (depth + 1) ++ writeAt indent (depth + 1) item ++
      writeItems indent (depth + 1) rest ++ lineBreak indent depth ++ [']']
  | object [] => ['{', '}']
  | object ((k, v) :: rest) =>
    '{' :: lineBreak indent (depth + 1) ++ quoted k ++ ':' :: ' ' ::
      writeAt indent (depth + 1) v ++ writeFields indent (depth + 1) rest ++
      lineBreak indent depth ++ ['}']

/-- The text of the further items of a list, each after a separator. -/
def writeItems (indent : Option Nat) (depth : Nat) : List Json → List Char
  | [] => []
  | item :: rest =>
    separator indent depth ++ writeAt indent depth item ++ writeItems indent depth rest

/-- The text of the further fields of an object, each after a separator. -/
def writeFields (indent : Option Nat) (depth : Nat) : List (String × Json) → List Char
  | [] => []
  | (k, v) :: rest =>
    separator indent depth ++ quoted k ++ ':' :: ' ' :: writeAt indent depth v ++
      writeFields indent depth rest

end

/-- The text of a value, on one line or with the given indentation per level. -/
def write (indent : Option Nat) (value : Json) : String :=
  String.ofList (writeAt indent 0 value)

end GrammarAudit.Json
