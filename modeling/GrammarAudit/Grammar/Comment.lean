/-!
# Comments

Line comments go first, from every double slash to the end of its line, and block comments after
them; neither looks at literals. A block comment that is not closed swallows the rest.

- `withoutLineComments`, `withoutBlockComments`: the two passes.
- `stripComments`: a text without its comments.
-/

namespace GrammarAudit.Grammar

/-- Drops every line comment up to its line feed; the flag tells whether the text starts in one. -/
def dropLineComments : Bool → List Char → List Char
  | _, [] => []
  | true, '\n' :: rest => '\n' :: dropLineComments false rest
  | true, _ :: rest => dropLineComments true rest
  | false, '/' :: '/' :: rest => dropLineComments true rest
  | false, c :: rest => c :: dropLineComments false rest

/-- A text without its line comments. -/
def withoutLineComments (s : List Char) : List Char :=
  dropLineComments false s

/-- Drops every block comment; the flag tells whether the text starts in one. -/
def dropBlockComments : Bool → List Char → List Char
  | _, [] => []
  | true, '*' :: '/' :: rest => dropBlockComments false rest
  | true, _ :: rest => dropBlockComments true rest
  | false, '/' :: '*' :: rest => dropBlockComments true rest
  | false, c :: rest => c :: dropBlockComments false rest

/-- A text without its block comments. -/
def withoutBlockComments (s : List Char) : List Char :=
  dropBlockComments false s

/-- A text without comments. -/
def stripComments (s : List Char) : List Char :=
  withoutBlockComments (withoutLineComments s)

end GrammarAudit.Grammar
