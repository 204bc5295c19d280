import GrammarAudit.Finding.Hint
import GrammarAudit.Finding.Issue
import GrammarAudit.Finding.Unused

/-!
# Summaries

- `Tally`: findings counted by severity; unused rules count as warnings and hints as information.
- `Summary`: the counts of a report.
- `Summary.ofFindings`: the summary of findings.
-/

namespace GrammarAudit

/-- Findings counted by severity. A tally that is read from a document may count further keys. -/
structure Tally where
  info : Int
  warning : Int
  error : Int
  critical : Int
  others : List (String × Int)
deriving DecidableEq, Repr

/-- The count of a severity. -/
def Tally.count (tally : Tally) : Severity → Int
  | .info => tally.info
  | .warning => tally.warning
  | .error => tally.error
  | .critical => tally.critical

/-- No findings. -/
def Tally.zero : Tally := ⟨0, 0, 0, 0, []⟩

/-- Whether errors or critical findings are counted. -/
def Tally.hasErrors (tally : Tally) : Bool :=
  0 < tally.error + tally.critical

/-- The counts of a report. -/
structure Summary where
  totalRules : Int
  parserRules : Int
  lexerRules : Int
  fragmentRules : Int
  unusedRules : Int
  highComplexityRules : Int
  performanceIssues : Int
  ambiguityHints : Int
  tally : Tally
deriving DecidableEq, Repr

/-- The number of issues of a severity. -/
def countIssues (issues : List Issue) (severity : Severity) : Nat :=
  issues.countP fun i => i.severity = severity

/-- The tally of findings. -/
def Tally.ofFindings (unused : List Unused) (issues : List Issue) (hints : List Hint) : Tally :=
  { info := countIssues issues .info + hints.length
    warning := countIssues issues .warning + unused.length
    error := countIssues issues .error
    critical := countIssues issues .critical
    others := [] }

/-- The number of rules of a kind. -/
def countKind (rules : List Rule) (kind : Kind) : Nat :=
  rules.countP fun rule => rule.kind = kind

/-- The summary of findings. -/
def Summary.ofFindings (rules : List Rule) (unused : List Unused) (metrics : List Metrics)
    (issues : List Issue) (hints : List Hint) : Summary :=
  { totalRules := rules.length
    parserRules := countKind rules .parser
    lexerRules := countKind rules .lexer
    fragmentRules := countKind rules .fragment
    unusedRules := unused.length
    highComplexityRules := metrics.countP fun m => m.grade.isHigh
    performanceIssues := issues.length
    ambiguityHints := hints.length
    tally := .ofFindings unused issues hints }

end GrammarAudit
