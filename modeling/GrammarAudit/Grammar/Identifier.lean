import GrammarAudit.Text.Blank

/-!
# Identifiers

Identifiers are made of ASCII letters, digits and underscores and do not start with a digit.

- `isIdentStart`, `isIdentChar`: the two character classes.
- `identifierEnd`: the position after the identifier at a position.
- `identifiers`: the identifiers that a text mentions, one per word.
-/

namespace GrammarAudit.Grammar

open Text

/-- A character that can begin an identifier. -/
def isIdentStart (c : Char) : Bool :=
  c.isAlpha || c = '_'

/-- A character that can continue an identifier. -/
def isIdentChar (c : Char) : Bool :=
  c.isAlphanum || c = '_'

/-- The position after the identifier at `pos`; a position that holds none counts as one
character. -/
def identifierEnd (s : List Char) (pos : Nat) : Nat :=
  pos + max 1 ((s.drop pos).takeWhile isIdentChar).length

/-- The rest of a text after an identifier at its start. -/
def afterIdentifier? : List Char → Option (List Char)
  | c :: rest => if isIdentStart c then some (rest.dropWhile isIdentChar) else none
  | [] => none

/-- A character of a word: an identifier character or the mark of a variable. -/
def isWordPart (c : Char) : Bool :=
  isIdentChar c || c = '$'

/-- The maximal runs of word characters, with an empty run between two neighbours that are none. -/
def wordRuns : List Char → List (List Char)
  | [] => [[]]
  | c :: rest =>
    match wordRuns rest with
    | run :: runs => if isWordPart c then (c :: run) :: runs else [] :: run :: runs
    | [] => [[]]

/-- The identifier at the start of a word; a word that starts with a digit or with the mark of a
variable holds none. -/
def leadingIdentifier? (word : List Char) : Option String :=
  match word with
  | c :: _ => if isIdentStart c then some (String.ofList (word.takeWhile isIdentChar)) else none
  | [] => none

/-- The identifiers that a text mentions, in order and with repeats. -/
def identifiers (s : List Char) : List String :=
  (wordRuns s).filterMap leadingIdentifier?

end GrammarAudit.Grammar
