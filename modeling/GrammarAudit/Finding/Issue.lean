import GrammarAudit.Finding.Metrics
import GrammarAudit.Text.Numeral

/-!
# Performance issues

Five checks look at the figures of a rule. Each fires on its own, so a rule can have several
issues; the most severe come first.

- `Severity`, `Category`: how bad an issue is and what it is about.
- `IssueRecord`, `Issue`: the finding.
- `checkRule`: the issues of one rule, in the order of the checks.
- `performanceIssues`: the issues of all rules that have figures, by severity.
-/

namespace GrammarAudit

open Text

/-- How serious a finding is. -/
inductive Severity where
  | critical
  | error
  | warning
  | info
deriving DecidableEq, Repr, Inhabited

/-- The written name of a severity. -/
def Severity.label : Severity → String
  | critical => "critical"
  | error => "error"
  | warning => "warning"
  | info => "info"

/-- The written name of a severity in capitals. -/
def Severity.capitals : Severity → String
  | critical => "CRITICAL"
  | error => "ERROR"
  | warning => "WARNING"
  | info => "INFO"

/-- All severities, the most serious first. -/
def Severity.all : List Severity := [.critical, .error, .warning, .info]

/-- The place of a severity, counted from the most serious one. -/
def Severity.rank : Severity → Nat
  | critical => 0
  | error => 1
  | warning => 2
  | info => 3

/-- What an issue is about. -/
inductive Category where
  | backtracking
  | lookahead
  | recursion
  | memory
  | ambiguity
deriving DecidableEq, Repr, Inhabited

/-- The written name of a category. -/
def Category.label : Category → String
  | backtracking => "backtracking"
  | lookahead => "lookahead"
  | recursion => "recursion"
  | memory => "memory"
  | ambiguity => "ambiguity"

/-- All categories. -/
def Category.all : List Category :=
  [.backtracking, .lookahead, .recursion, .memory, .ambiguity]

/-- A performance risk of a rule. -/
structure IssueRecord (Txt Num : Type) where
  rule : Txt
  kind : Kind
  line : Num
  column : Num
  severity : Severity
  issue : Txt
  description : Txt
  suggestion : Txt
  category : Category
deriving DecidableEq, Repr

/-- A performance risk of a rule of a grammar. -/
abbrev Issue := IssueRecord String Int

/-- An issue on one line: severity, place, rule and title. -/
def Issue.describe (i : Issue) : String :=
  i.severity.capitals ++ " at " ++ decimal i.line ++ ":" ++ decimal i.column ++ ": " ++ i.rule ++
    ": " ++ i.issue

/-! ## Checks -/

/-- A check: when it fires, and what it then reports. -/
structure Check where
  fires : Metrics → Bool
  severity : Severity
  category : Category
  issue : String
  describe : Metrics → String
  suggestion : String

/-- The issue that a check reports for a rule. -/
def Check.report (check : Check) (rule : Rule) (m : Metrics) : Issue :=
  { rule := rule.name
    kind := rule.kind
    line := rule.line
    column := rule.column
    severity := check.severity
    issue := check.issue
    description := check.describe m
    suggestion := check.suggestion
    category := check.category }

/-- Many alternatives that also need lookahead. -/
def backtrackingCheck : Check where
  fires m := 5 < m.alternatives && 2 < m.lookahead
  severity := .warning
  category := .backtracking
  issue := "High backtracking potential"
  describe m := "Rule has " ++ decimal m.alternatives ++ " alternatives with lookahead of " ++
    decimal m.lookahead ++ ", which may cause excessive backtracking."
  suggestion :=
    "Consider reordering alternatives by frequency or refactoring to reduce ambiguity."

/-- Much lookahead. -/
def lookaheadCheck : Check where
  fires m := 4 ≤ m.lookahead
  severity := .warning
  category := .lookahead
  issue := "High lookahead requirement"
  describe m := "Rule requires estimated lookahead of " ++ decimal m.lookahead ++ " tokens."
  suggestion := "Consider left-factoring common prefixes or using syntactic predicates."

/-- Indirect recursion in a nested rule. -/
def recursionCheck : Check where
  fires m := m.indirectlyRecursive && 3 < m.depth
  severity := .info
  category := .recursion
  issue := "Deep indirect recursion"
  describe m := "Rule has indirect recursion with depth " ++ decimal m.depth ++
    ", which may cause deep stack usage."
  suggestion := "Consider flattening the recursion or adding iteration limits."

/-- Deep nesting. -/
def nestingCheck : Check where
  fires m := 5 < m.depth
  severity := .info
  category := .memory
  issue := "Deep nesting"
  describe m := "Rule has nesting depth of " ++ decimal m.depth ++
    ", which increases memory usage."
  suggestion := "Consider breaking down into simpler sub-rules."

/-- A critical grade. -/
def criticalCheck : Check where
  fires m := m.grade = .critical
  severity := .error
  category := .backtracking
  issue := "Critical complexity"
  describe m := "Rule has critical complexity score (" ++ decimal m.value ++
    "). This may severely impact parse performance."
  suggestion := "This rule should be refactored to reduce complexity. " ++
    "Consider breaking it into smaller rules."

/-- All checks, in the order in which they are made. -/
def checks : List Check :=
  [backtrackingCheck, lookaheadCheck, recursionCheck, nestingCheck, criticalCheck]

/-- The issues of a rule, in the order of the checks. -/
def checkRule (rule : Rule) (m : Metrics) : List Issue :=
  (checks.filter fun check => check.fires m).map fun check => check.report rule m

/-- The last figures listed for a name. -/
def lastMetrics? (metrics : List Metrics) (name : String) : Option Metrics :=
  metrics.reverse.find? fun m => m.name = name

/-- The issues of all rules that have figures, in the order of the rules. -/
def issuesByRule (rules : List Rule) (metrics : List Metrics) : List Issue :=
  rules.flatMap fun rule =>
    match lastMetrics? metrics rule.name with
    | some m => checkRule rule m
    | none => []

/-- The issues of all rules that have figures, the most severe first; issues of one severity keep
the order of the rules. -/
def performanceIssues (rules : List Rule) (metrics : List Metrics) : List Issue :=
  (issuesByRule rules metrics).mergeSort fun a b => a.severity.rank ≤ b.severity.rank

end GrammarAudit
