import GrammarAudit.Text.Place

/-!
# Rules

The rules of a grammar as a report lists them. The records leave open what stands for a text and
for a number, since a report that is read from a document may hold any value there.

- `Kind`: parser rule, lexer rule or fragment.
- `RuleRecord`: a rule with its place, text and neighbours.
- `Rule`: the record of a rule that was found in a grammar.
-/

namespace GrammarAudit

/-- The kind of a rule. -/
inductive Kind where
  | parser
  | lexer
  | fragment
deriving DecidableEq, Repr, Inhabited

/-- The written name of a kind. -/
def Kind.label : Kind → String
  | parser => "parser"
  | lexer => "lexer"
  | fragment => "fragment"

/-- All kinds. -/
def Kind.all : List Kind := [.parser, .lexer, .fragment]

/-- A rule. Lines count from one and columns from zero; the end is the place past the semicolon. -/
structure RuleRecord (Txt Num : Type) where
  name : Txt
  kind : Kind
  line : Num
  column : Num
  endLine : Num
  endColumn : Num
  text : Txt
  alternativeCount : Num
  references : List Txt
  referencedBy : List Txt
deriving DecidableEq, Repr

/-- A rule found in a grammar. -/
abbrev Rule := RuleRecord String Int

/-- The rules of a kind. -/
def Rule.ofKind (kind : Kind) (rules : List Rule) : List Rule :=
  rules.filter fun rule => rule.kind = kind

end GrammarAudit
