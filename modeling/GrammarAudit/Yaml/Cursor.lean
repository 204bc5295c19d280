/-!
# Cursors in a document

- `Cursor`: the rest of a document and where it starts.
- `Cursor.advance`: the cursor after some characters.
- `Cursor.takeBreak?`: a line break at the cursor, as it counts in a scalar.
-/

namespace GrammarAudit.Yaml

/-- A character that ends a line. -/
def isBreak (c : Char) : Bool :=
  c = '\n' || c = '\r' || c.toNat = 0x85 || c.toNat = 0x2028 || c.toNat = 0x2029

/-- A character that separates words: a space, a tab or a line break. -/
def isSpacing (c : Char) : Bool :=
  c = ' ' || c = '\t' || isBreak c

/-- The mark that a document may start with. -/
def byteOrderMark : Char := Char.ofNat 0xfeff

/-- The rest of a document, the number of characters in it, and its line and column. -/
structure Cursor where
  rest : List Char
  left : Nat
  line : Nat
  column : Nat
deriving DecidableEq, Repr

namespace Cursor

/-- The start of a document. -/
def ofText (s : List Char) : Cursor :=
  ⟨s, s.length, 0, 0⟩

/-- The character at a distance from the cursor. -/
def peek? (c : Cursor) (distance : Nat) : Option Char :=
  c.rest[distance]?

/-- The cursor after the next character. A carriage return before a line feed does not end a line
of its own. -/
def next (c : Cursor) : Cursor :=
  match c.rest with
  | [] => c
  | x :: rest =>
    let isPair := x = '\r' && rest.head? = some '\n'
    if isBreak x && !isPair then ⟨rest, c.left - 1, c.line + 1, 0⟩
    else if x = byteOrderMark then ⟨rest, c.left - 1, c.line, c.column⟩
    else ⟨rest, c.left - 1, c.line, c.column + 1⟩

/-- The cursor after a number of characters. -/
def advance : Nat → Cursor → Cursor
  | 0, c => c
  | n + 1, c => advance n c.next

/-- The cursor after the characters of a class. -/
def skip (p : Char → Bool) (c : Cursor) : Cursor :=
  advance (c.rest.takeWhile p).length c

/-- Whether a class holds the character at a distance; the end of the document counts as a
member. -/
def endsAt (p : Char → Bool) (c : Cursor) (distance : Nat) : Bool :=
  (c.peek? distance).all p

/-- Whether a class holds the next character; the end of the document is no member. -/
def sees (p : Char → Bool) (c : Cursor) : Bool :=
  c.rest.head?.any p

/-- Whether a text comes next. -/
def startsWith (word : String) (c : Cursor) : Bool :=
  word.toList.isPrefixOf c.rest

/-- A line break and the cursor after it. The two rarer breaks stand for themselves and all others
for a line feed. -/
def takeBreak? (c : Cursor) : Option (Char × Cursor) :=
  match c.rest with
  | '\r' :: '\n' :: _ => some ('\n', advance 2 c)
  | x :: _ =>
    if isBreak x then
      some (if x.toNat = 0x2028 || x.toNat = 0x2029 then x else '\n', c.next)
    else none
  | [] => none

/-- Whether a mark of three characters that separates documents comes next. -/
def atMark (mark : String) (c : Cursor) : Bool :=
  c.startsWith mark && c.endsAt isSpacing 3

/-- Whether documents are separated here. -/
def atSeparator (c : Cursor) : Bool :=
  c.atMark "---" || c.atMark "..."

end Cursor

end GrammarAudit.Yaml
