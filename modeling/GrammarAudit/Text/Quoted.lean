import GrammarAudit.Text.Numeral
import GrammarAudit.Text.Printable

/-!
# Quoted text

A text between quotes as messages show it: single quotes, unless the text holds a single quote and
no double one. The quote in use and the backslash take a backslash, the three usual controls their
letter, and every other character without a glyph its code point in hexadecimal.

- `quote`: the quoted form of a text.
-/

namespace GrammarAudit.Text

/-- The mark that encloses a text: a double quote only where it saves escaping single ones. -/
def quoteMark (s : List Char) : Char :=
  if '\'' ∈ s ∧ '"' ∉ s then '"' else '\''

/-- A code point as an escape of two, four or eight hexadecimal digits. -/
def codePointEscape (n : Nat) : List Char :=
  if n < 0x100 then '\\' :: 'x' :: padded 2 (natNumeral 16 n)
  else if n < 0x10000 then '\\' :: 'u' :: padded 4 (natNumeral 16 n)
  else '\\' :: 'U' :: padded 8 (natNumeral 16 n)

/-- One character inside the quotes `mark`. -/
def quoteChar (mark c : Char) : List Char :=
  if c = mark ∨ c = '\\' then ['\\', c]
  else if c = '\n' then ['\\', 'n']
  else if c = '\r' then ['\\', 'r']
  else if c = '\t' then ['\\', 't']
  else if isPrintable c then [c]
  else codePointEscape c.toNat

/-- A text between quotes, with all that has no glyph escaped. -/
def quote (s : String) : String :=
  let mark := quoteMark s.toList
  String.ofList (mark :: s.toList.flatMap (quoteChar mark) ++ [mark])

end GrammarAudit.Text
