import GrammarAudit.Report.Basic
import GrammarAudit.Text.Markup
import GrammarAudit.Text.Numeral

/-!
# Tables of a report

A report laid out for a terminal. Cells hold markup.

- `Table`, `Table.lines`: a title, the names of the columns and the rows, and how they are shown.
- `Finding`, `Report.findings`: all findings of a report in one list.
- `Report.overview`, `Report.findingsTable`, `Report.complexityTable`: the three tables.
- `rulesTable`: the rules of a grammar.
-/

namespace GrammarAudit

open Text

/-- A table. Columns without a name have the empty one. -/
structure Table where
  title : Option String
  columns : List String
  rows : List (List String)
deriving DecidableEq, Repr

/-- A table in lines: its title, the names of its columns if they have any, and its rows. -/
def Table.lines (t : Table) : List String :=
  let cells (row : List String) : String := visible ("  ".intercalate row)
  let header := if t.columns.all (· = "") then [] else [cells t.columns]
  t.title.toList.map visible ++ header ++ t.rows.map cells

/-! ## Findings -/

/-- A finding of any kind: how serious it is, where it is, and what it says. -/
structure Finding where
  severity : Severity
  rule : String
  line : Int
  column : Int
  message : String
deriving DecidableEq, Repr

/-- The finding of an unused rule. -/
def Finding.ofUnused (u : Unused) : Finding :=
  ⟨.warning, u.name, u.line, u.column, escape u.suggestion⟩

/-- The finding of an issue. -/
def Finding.ofIssue (i : Issue) : Finding :=
  ⟨i.severity, i.rule, i.line, i.column,
    escape i.issue ++ ": " ++ escape i.description ++ "\n" ++
      styled "dim" ("hint: " ++ escape i.suggestion)⟩

/-- The finding of a hint. It is placed at the column of its rule. -/
def Finding.ofHint (report : Report) (h : Hint) : Finding :=
  ⟨.info, h.rule, h.line, ((report.rule? h.rule).map RuleRecord.column).getD 0,
    escape h.description⟩

/-- The finding of a mention of an undefined name. -/
def Finding.ofDangling (d : Dangling) : Finding :=
  ⟨.info, d.rule, d.line, d.column, escape ("Reference to undefined rule '" ++ d.name ++ "'")⟩

/-- All findings of a report, by section. -/
def ReportRecord.findings (report : Report) : List Finding :=
  report.unused.map Finding.ofUnused ++ report.issues.map Finding.ofIssue ++
    report.hints.map (Finding.ofHint report) ++ report.dangling.map Finding.ofDangling

/-- The style of a severity. -/
def Severity.style : Severity → String
  | critical => "bold red"
  | error => "red"
  | warning => "yellow"
  | info => "blue"

/-- A place as tables show it. -/
def shownPlace (line column : Int) : String :=
  decimal line ++ ":" ++ decimal column

/-- The row of a finding. -/
def Finding.row (f : Finding) : List String :=
  [styled f.severity.style f.severity.capitals, f.rule, shownPlace f.line f.column, f.message]

/-! ## Tables -/

/-- The counts of a report on a file. -/
def ReportRecord.overview (report : Report) (file : String) : Table :=
  let s := report.summary
  { title := some ("Grammar: " ++ escape file)
    columns := ["", ""]
    rows := [
      ["Rules", decimal s.totalRules],
      ["  parser / lexer / fragment",
        " / ".intercalate [decimal s.parserRules, decimal s.lexerRules, decimal s.fragmentRules]],
      ["Unused rules", decimal s.unusedRules],
      ["High complexity rules", decimal s.highComplexityRules],
      ["Performance issues", decimal s.performanceIssues],
      ["Ambiguity hints", decimal s.ambiguityHints],
      ["Hash", report.fingerprint]] }

/-- The findings of a report. -/
def ReportRecord.findingsTable (report : Report) : Table :=
  { title := some "Findings"
    columns := ["Severity", "Rule", "Location", "Message"]
    rows := report.findings.map Finding.row }

/-- How a rule is recursive, in a word. -/
def MetricsRecord.recursion {Txt Num : Type} (m : MetricsRecord Txt Num) : String :=
  if m.directlyRecursive then "direct" else if m.indirectlyRecursive then "indirect" else ""

/-- The row of the figures of a rule. -/
def MetricsRecord.row (m : Metrics) : List String :=
  [m.name, m.grade.label, decimal m.value, decimal m.depth, decimal m.alternatives,
    decimal m.referenceCount, decimal m.lookahead, m.recursion]

/-- The figures of a report. -/
def ReportRecord.complexityTable (report : Report) : Table :=
  { title := some "Complexity"
    columns := ["Rule", "Score", "Value", "Depth", "Alts", "Refs", "Lookahead", "Recursion"]
    rows := report.complexity.map MetricsRecord.row }

/-- The tally of a report in a line. -/
def ReportRecord.tallyLine (report : Report) : String :=
  let t := report.summary.tally
  "\n" ++ styled "bold" "Summary:" ++ " " ++ decimal t.critical ++ " critical, " ++
    decimal t.error ++ " error(s), " ++ decimal t.warning ++ " warning(s), " ++
    decimal t.info ++ " info"

/-- The row of a rule. -/
def RuleRecord.row (rule : Rule) : List String :=
  [rule.name, rule.kind.label,
    shownPlace rule.line rule.column ++ "-" ++ shownPlace rule.endLine rule.endColumn,
    decimal rule.alternativeCount, ", ".intercalate rule.references,
    ", ".intercalate rule.referencedBy]

/-- The rules of a file. -/
def rulesTable (rules : List Rule) (file : String) : Table :=
  { title := some ("Rules: " ++ escape file)
    columns := ["Name", "Type", "Span", "Alts", "References", "Referenced by"]
    rows := rules.map RuleRecord.row }

end GrammarAudit
