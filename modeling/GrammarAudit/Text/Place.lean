/-!
# Lines and columns

Lines are counted from one and columns from zero. Only a line feed ends a line. An offset may lie
before the text or past its end: lines are then counted in the part of the text before it, and
columns go on from the last line start.

- `Place`: a line and a column.
- `place`: the place of an offset in a text.
- `Place.offset`: the offset of a place, the way back.
-/

namespace GrammarAudit.Text

/-- A line, counted from one, and a column, counted from zero. -/
structure Place where
  line : Int
  column : Int
deriving DecidableEq, Repr

/-- The number of the line that holds an offset. -/
def lineOf (s : List Char) (offset : Int) : Int :=
  (s.take offset.toNat).count '\n' + 1

/-- The number of characters after the last line feed, or all of them when there is none. -/
def sinceLineFeed (s : List Char) : Nat :=
  (s.reverse.takeWhile (· != '\n')).length

/-- The column of an offset: its distance from the start of its line. -/
def columnOf (s : List Char) (offset : Int) : Int :=
  let before := s.take offset.toNat
  offset - ((before.length : Int) - sinceLineFeed before)

/-- The place of an offset. -/
def place (s : List Char) (offset : Int) : Place :=
  ⟨lineOf s offset, columnOf s offset⟩

/-- The offset at which the `n`-th line starts, counted from zero. -/
def lineStart : Nat → List Char → Nat
  | 0, _ => 0
  | _ + 1, [] => 0
  | n + 1, c :: rest => 1 + lineStart (if c = '\n' then n else n + 1) rest

/-- The offset of a place in a text. -/
def Place.offset (s : List Char) (p : Place) : Int :=
  lineStart (p.line - 1).toNat s + p.column

end GrammarAudit.Text
