import GrammarAudit.Distinct
import GrammarAudit.Grammar.Comment
import GrammarAudit.Grammar.Enclosure
import GrammarAudit.Grammar.Keyword
import GrammarAudit.Text.Replace

/-!
# References

The names that the body of a rule mentions. The body is what follows the first colon.

- `references`: every name outside literals, comments and actions.
- `symbolReferences`: only the names that have to be rules or tokens; labels, element options,
  lexer commands and the contents of character sets are left out as well.
-/

namespace GrammarAudit.Grammar

open Text

/-- The body of a rule text: what follows its first colon. -/
def body? (ruleText : List Char) : Option (List Char) :=
  afterFirst? [':'] ruleText

/-- The names a text mentions: each once, in order, without the reserved words. -/
def names (s : List Char) : List String :=
  distinct ((identifiers s).filter fun name => !isKeyword name)

/-- A pair of equal quotes and what stands between them. -/
def quotedSpan? : Pattern := fun _ s =>
  match s with
  | c :: rest => if isQuote c then afterFirst? [c] rest else none
  | [] => none

/-- A block comment that is closed. -/
def closedComment? : Pattern := fun _ s =>
  after? ['/', '*'] s >>= afterFirst? ['*', '/']

/-- The names mentioned in the body of a rule. -/
def references (ruleText : List Char) : List String :=
  match body? ruleText with
  | none => []
  | some body =>
    names (withoutActions
      (eraseMatches closedComment? (withoutLineComments (eraseMatches quotedSpan? body))))

/-- A literal, a character set, an action block or a comment; each runs to the end of the text
when it is not closed. A line comment ends before the line feed. -/
def enclosure? : Pattern := fun _ s =>
  match s with
  | [] => none
  | c :: rest =>
    if isQuote c then some (afterLiteral c rest)
    else if c = '[' then some (afterCharSet rest)
    else if c = '{' then some (afterBlock 1 rest)
    else if c = '/' ∧ rest.head? = some '/' then some (rest.dropWhile (· != '\n'))
    else if c = '/' ∧ rest.head? = some '*' then
      some ((afterFirst? ['*', '/'] (rest.drop 1)).getD [])
    else none

/-- The options of an element between angle brackets. -/
def elementOptions? : Pattern := fun _ s => do
  let rest ← after? ['<'] s
  after? ['>'] (rest.dropWhile fun c => c != '<' && c != '>')

/-- The commands of a lexer alternative: an arrow and all up to a bar or a semicolon. -/
def lexerCommands? : Pattern := fun _ s =>
  (after? ['-', '>'] s).map fun rest => rest.dropWhile fun c => c != '|' && c != ';'

/-- The label of an alternative. -/
def alternativeLabel? : Pattern := fun _ s =>
  after? ['#'] s >>= fun rest => afterIdentifier? (trimStart rest)

/-- The label of an element: a name before an equals sign, which a plus may precede. -/
def elementLabel? : Pattern := fun _ s => do
  let rest := trimStart (← afterIdentifier? s)
  after? ['='] ((after? ['+'] rest).getD rest)

/-- A text with every match of a pattern turned into a blank. -/
def blankMatches (s : List Char) (pattern : Pattern) : List Char :=
  replaceMatches [' '] pattern true s

/-- The names in the body of a rule that have to be rules or tokens. -/
def symbolReferences (ruleText : List Char) : List String :=
  match body? ruleText with
  | none => []
  | some body =>
    names ([enclosure?, elementOptions?, lexerCommands?, alternativeLabel?, elementLabel?].foldl
      blankMatches body)

end GrammarAudit.Grammar
