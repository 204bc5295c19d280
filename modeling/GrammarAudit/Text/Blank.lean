import GrammarAudit.Text.InversionList

/-!
# Blanks

The white space of a text: tabs, line and page breaks, the four information separators and the
spaces of Unicode, without the zero-width ones.

- `isBlank`: membership in the class.
- `trim`: a text without the blanks around it.
-/

namespace GrammarAudit.Text

/-- The blank characters. -/
def blanks : InversionList where
  bounds := [
    0x9, 0xe, 0x1c, 0x21, 0x85, 0x86, 0xa0, 0xa1, 0x1680, 0x1681, 0x2000, 0x200b, 0x2028, 0x202a,
    0x202f, 0x2030, 0x205f, 0x2060, 0x3000, 0x3001]

/-- A blank character. -/
def isBlank (c : Char) : Bool :=
  blanks.contains c

/-- A text without the blanks at its start. -/
def trimStart (s : List Char) : List Char :=
  s.dropWhile isBlank

/-- A text without the blanks at its end. -/
def trimEnd (s : List Char) : List Char :=
  (s.reverse.dropWhile isBlank).reverse

/-- A text without the blanks around it. -/
def trim (s : List Char) : List Char :=
  trimEnd (trimStart s)

end GrammarAudit.Text
