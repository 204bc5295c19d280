/-!
# Keywords

Words that can stand in a rule body without naming another rule.

- `keywords`: the reserved words.
- `isKeyword`: membership, with regard to case.
-/

namespace GrammarAudit.Grammar

/-- The reserved words: declarations, rule signatures, literal words, lexer commands and the
token for the end of the input. -/
def keywords : List String := [
  "fragment", "grammar", "lexer", "parser", "options", "tokens", "channels", "import", "mode",
  "returns", "locals", "throws", "catch", "finally",
  "true", "false", "null",
  "skip", "channel", "type", "more", "popMode", "pushMode",
  "EOF"]

/-- A reserved word. -/
def isKeyword (name : String) : Bool :=
  keywords.contains name

end GrammarAudit.Grammar
