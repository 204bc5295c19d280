import GrammarAudit.Grammar.Identifier

/-!
# Enclosures

Quoted literals, character sets and action blocks are passed over as wholes. An enclosure that is
not closed runs to the end of the text, a literal to the end of its line. A backslash in a literal
or a character set takes the character after it along, whatever that is.

- `afterLiteral`, `afterCharSet`, `afterBlock`: what follows an enclosure.
- `literalEnd?`, `charSetEnd`, `blockEnd`: the same as positions in a text.
- `withoutActions`: a text without its action blocks.
-/

namespace GrammarAudit.Grammar

/-- A quotation mark of a literal. -/
def isQuote (c : Char) : Bool :=
  c = '\'' || c = '"'

/-- What follows a literal with the closing quote `mark`, given the text after its opening one. -/
def afterLiteral (mark : Char) : List Char → List Char
  | [] => []
  | ['\\'] => []
  | '\\' :: _ :: rest => afterLiteral mark rest
  | c :: rest =>
    if c = mark then rest
    else if c = '\n' then c :: rest
    else afterLiteral mark rest

/-- What follows a character set, given the text after its opening bracket. -/
def afterCharSet : List Char → List Char
  | [] => []
  | ['\\'] => []
  | '\\' :: _ :: rest => afterCharSet rest
  | c :: rest => if c = ']' then rest else afterCharSet rest

/-- What follows the brace that brings the number of open blocks down to zero, given how many are
open at the start. A text that closes more blocks than it opens counts below zero. -/
def afterBlock (depth : Int) : List Char → List Char
  | [] => []
  | c :: rest =>
    if c = '{' then afterBlock (depth + 1) rest
    else if c = '}' then if depth = 1 then rest else afterBlock (depth - 1) rest
    else afterBlock depth rest

/-- The position after the literal whose quote stands at `pos`; there is none past the end. -/
def literalEnd? (s : List Char) (pos : Nat) : Option Nat :=
  match s.drop pos with
  | [] => none
  | mark :: rest => some (s.length - (afterLiteral mark rest).length)

/-- The position after the character set whose bracket stands at `pos`. -/
def charSetEnd (s : List Char) (pos : Nat) : Nat :=
  s.length - (afterCharSet (s.drop (pos + 1))).length

/-- The position after the action block whose brace stands at `pos`. -/
def blockEnd (s : List Char) (pos : Nat) : Nat :=
  s.length - (afterBlock 0 (s.drop pos)).length

/-- The characters at brace depth zero, given the depth at the start. Once more blocks are closed
than were opened, the depth is below zero and hides what follows. -/
def outsideBlocks (depth : Int) : List Char → List Char
  | [] => []
  | c :: rest =>
    if c = '{' then outsideBlocks (depth + 1) rest
    else if c = '}' then outsideBlocks (depth - 1) rest
    else if depth = 0 then c :: outsideBlocks depth rest
    else outsideBlocks depth rest

/-- A text without its action blocks; what stood around a block closes up. -/
def withoutActions (s : List Char) : List Char :=
  outsideBlocks 0 s

end GrammarAudit.Grammar
