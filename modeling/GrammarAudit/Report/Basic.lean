import GrammarAudit.Number.Basic
import GrammarAudit.Report.Summary

/-!
# Reports

- `ReportRecord`: a report over any type of texts and numbers.
- `Report`: the report of an analysis.
- `Report.hasErrors`: whether a finding is an error or critical.
-/

namespace GrammarAudit

/-- A report on a grammar: the rules, one section per kind of finding, when and how long the
analysis ran, and the hash of the source. -/
structure ReportRecord (Txt Num : Type) where
  summary : Summary
  rules : List (RuleRecord Txt Num)
  unused : List (UnusedRecord Txt Num)
  complexity : List (MetricsRecord Txt Num)
  issues : List (IssueRecord Txt Num)
  hints : List (HintRecord Txt Num)
  dangling : List (DanglingRecord Txt Num)
  timestamp : Double
  duration : Double
  fingerprint : String
deriving DecidableEq, Repr

/-- The report of an analysis. -/
abbrev Report := ReportRecord String Int

/-- Whether a finding is an error or critical. -/
def ReportRecord.hasErrors {Txt Num : Type} (report : ReportRecord Txt Num) : Bool :=
  report.summary.tally.hasErrors

/-- The rule of a name in a report. -/
def ReportRecord.rule? {Txt Num : Type} [DecidableEq Txt] (report : ReportRecord Txt Num)
    (name : Txt) : Option (RuleRecord Txt Num) :=
  report.rules.find? fun rule => rule.name = name

/-- The figures of a name in a report. -/
def ReportRecord.metrics? {Txt Num : Type} [DecidableEq Txt] (report : ReportRecord Txt Num)
    (name : Txt) : Option (MetricsRecord Txt Num) :=
  report.complexity.find? fun m => m.name = name

end GrammarAudit
