/-!
# UTF-16 code units

A character beyond the basic plane counts as two units, a high and a low surrogate.

- `units`: the code units of a text.
-/

namespace GrammarAudit.Text

/-- The one or two code units of a character. -/
def charUnits (c : Char) : List Nat :=
  if c.toNat < 0x10000 then
    [c.toNat]
  else
    [0xd800 + (c.toNat - 0x10000) / 0x400, 0xdc00 + (c.toNat - 0x10000) % 0x400]

/-- The UTF-16 code units of a text. -/
def units (s : List Char) : List Nat :=
  s.flatMap charUnits

end GrammarAudit.Text
