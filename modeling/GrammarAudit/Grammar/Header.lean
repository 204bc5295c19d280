import GrammarAudit.Grammar.Comment
import GrammarAudit.Grammar.Enclosure
import GrammarAudit.Text.Replace

/-!
# Headers

Grammar declarations, imports, mode lines and the blocks that hold no rules are dropped before
rules are looked for. Each kind is looked for on its own, in a fixed order, anywhere in the text.

- `declaration?`, `importStatement?`, `modeLine?`, `wordBlock?`, `namedAction?`: the patterns.
- `stripHeaders`: a text without headers.
- `strip`: a text without comments and headers.
-/

namespace GrammarAudit.Grammar

open Text

/-- What follows one or more blanks. -/
def afterBlanks? : List Char → Option (List Char)
  | c :: rest => if isBlank c then some (trimStart rest) else none
  | [] => none

/-- What follows a character, after any blanks. -/
def afterMark? (mark : Char) (s : List Char) : Option (List Char) :=
  match trimStart s with
  | c :: rest => if c = mark then some rest else none
  | [] => none

/-- What follows a name and a semicolon, after one or more blanks. -/
def afterNamed? (s : List Char) : Option (List Char) :=
  afterBlanks? s >>= afterIdentifier? >>= afterMark? ';'

/-- What follows the words that open a grammar declaration. -/
def afterGrammarWords? (s : List Char) : Option (List Char) :=
  (after? "grammar".toList s).or <|
    (after? "lexer".toList s).or (after? "parser".toList s) >>= afterBlanks? >>=
      after? "grammar".toList

/-- A grammar declaration. -/
def declaration? : Pattern := fun _ s =>
  afterGrammarWords? s >>= afterNamed?

/-- An import statement: a blank and at least one more character before the semicolon. -/
def importStatement? : Pattern := fun _ s => do
  let rest ← after? "import".toList s
  let names := rest.takeWhile (· != ';')
  if (names.head?.map isBlank).getD false && 2 ≤ names.length then
    after? [';'] (rest.drop names.length)
  else none

/-- A mode line; it has to start a line. -/
def modeLine? : Pattern := fun lineStart s =>
  if lineStart then after? "mode".toList s >>= afterNamed? else none

/-- A block that is opened by a word. -/
def wordBlock? (word : String) : Pattern := fun _ s =>
  (after? word.toList s >>= afterMark? '{').map (afterBlock 1)

/-- A block that is opened by an action name, which two colons may join to another name. -/
def namedAction? : Pattern := fun _ s => do
  let name ← after? ['@'] s >>= afterIdentifier?
  let full := ((after? [':', ':'] name) >>= afterIdentifier?).getD name
  (afterMark? '{' full).map (afterBlock 1)

/-- A text without declarations, blocks, imports and mode lines. -/
def stripHeaders (s : List Char) : List Char :=
  [declaration?, wordBlock? "options", wordBlock? "tokens", namedAction?, importStatement?,
    wordBlock? "channels", modeLine?].foldl (fun text pattern => eraseMatches pattern text) s

/-- A text without comments and headers. -/
def strip (s : List Char) : List Char :=
  stripHeaders (stripComments s)

end GrammarAudit.Grammar
