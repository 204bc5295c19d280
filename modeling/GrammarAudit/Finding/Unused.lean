import GrammarAudit.Graph.Basic
import GrammarAudit.Text.LowerCase

/-!
# Unused rules

A rule that no rule mentions is unused, unless the analysis starts with it: the configured start
rule, whatever its case, or without one the first parser rule.

- `UnusedRecord`, `Unused`: the finding.
- `unusedRules`: the unused rules of a list, in order.
-/

namespace GrammarAudit

/-- A rule that nothing mentions, with advice. -/
structure UnusedRecord (Txt Num : Type) where
  name : Txt
  kind : Kind
  line : Num
  column : Num
  suggestion : Txt
deriving DecidableEq, Repr

/-- An unused rule of a grammar. -/
abbrev Unused := UnusedRecord String Int

/-- The advice for an unused rule. -/
def unusedAdvice (kind : Kind) (name : String) : String :=
  match kind with
  | .fragment =>
    "Fragment '" ++ name ++ "' is never used by other lexer rules. Consider removing it."
  | _ =>
    "Rule '" ++ name ++ "' is never referenced. Consider removing it or making it the start rule."

/-- The finding for a rule. -/
def Unused.ofRule (rule : Rule) : Unused :=
  { name := rule.name
    kind := rule.kind
    line := rule.line
    column := rule.column
    suggestion := unusedAdvice rule.kind rule.name }

/-- The rule that an analysis starts with when none is configured: the first parser rule. -/
def implicitStart? (rules : List Rule) : Option String :=
  (rules.find? fun rule => rule.kind = .parser).map RuleRecord.name

/-- Whether two names are equal up to case. -/
def sameUpToCase (a b : String) : Bool :=
  Text.lower a.toList = Text.lower b.toList

/-- Whether an analysis starts with the named rule. -/
def isStart (rules : List Rule) (startRule name : String) : Bool :=
  sameUpToCase name startRule || (startRule = "" && implicitStart? rules = some name)

/-- Whether a name is a node that no rule mentions. -/
def Graph.isUnmentioned (g : Graph) (name : String) : Bool :=
  match g.node? name with
  | some node => node.referencedBy.isEmpty
  | none => false

/-- The unused rules of a list, in order. -/
def unusedRules (rules : List Rule) (g : Graph) (startRule : String) : List Unused :=
  (rules.filter fun rule =>
    g.isUnmentioned rule.name && !isStart rules startRule rule.name).map Unused.ofRule

end GrammarAudit
