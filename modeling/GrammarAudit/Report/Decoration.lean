import GrammarAudit.Report.Leaves

/-!
# Decorations

Findings projected on ranges of the source, for an editor. A decoration covers the name of the
rule that a finding is about; lines and columns count from one, and the end is exclusive.

- `DecorationRecord`, `Decoration`: a range with its severity and hover text.
- `ReportRecord.decorations?`: the decorations of a report, in the order of its sections.
-/

namespace GrammarAudit

variable {Txt Num : Type}

/-- The analysis that a decoration comes from. -/
inductive DecorationSource where
  | unused
  | performance
  | complexity
  | ambiguity
deriving DecidableEq, Repr

/-- The written name of a source. -/
def DecorationSource.label : DecorationSource → String
  | unused => "unused"
  | performance => "performance"
  | complexity => "complexity"
  | ambiguity => "ambiguity"

/-- A highlighted range with a message. -/
structure DecorationRecord (Txt Num : Type) where
  startLine : Num
  startColumn : Num
  endLine : Num
  endColumn : Num
  severity : Severity
  message : Txt
  source : DecorationSource
deriving DecidableEq, Repr

/-- A decoration for the report of an analysis. -/
abbrev Decoration := DecorationRecord String Int

/-- A decoration before its columns are known: the name it covers and where the name starts. -/
structure Mark (Txt Num : Type) where
  line : Num
  column : Num
  name : Txt
  severity : Severity
  message : Txt
  source : DecorationSource

/-- The decoration of a mark. -/
def Mark.decorate? (leaves : Leaves Txt Num) (m : Mark Txt Num) :
    Option (DecorationRecord Txt Num) :=
  (leaves.span? m.column m.name).map fun (start, stop) =>
    { startLine := m.line, startColumn := start, endLine := m.line, endColumn := stop
      severity := m.severity, message := m.message, source := m.source }

/-- The mark of an unused rule. -/
def UnusedRecord.mark (u : UnusedRecord Txt Num) : Mark Txt Num :=
  ⟨u.line, u.column, u.name, .warning, u.suggestion, .unused⟩

/-- The mark of an issue. -/
def IssueRecord.mark (leaves : Leaves Txt Num) (i : IssueRecord Txt Num) : Mark Txt Num :=
  let message := leaves.showText i.issue ++ ": " ++ leaves.showText i.description ++
    "\n\nSuggestion: " ++ leaves.showText i.suggestion
  ⟨i.line, i.column, i.rule, i.severity, leaves.ofText message, .performance⟩

/-- The hover text for the figures of a rule. -/
def MetricsRecord.describe (leaves : Leaves Txt Num) (m : MetricsRecord Txt Num) : String :=
  "Complexity: " ++ m.grade.label ++ " (score: " ++ leaves.showNumber m.value ++ ")\nDepth: " ++
    leaves.showNumber m.depth ++ ", Alternatives: " ++ leaves.showNumber m.alternatives ++
    ", References: " ++ leaves.showNumber m.referenceCount ++
    (if m.directlyRecursive then "\nDirectly recursive" else "") ++
    (if m.indirectlyRecursive then "\nIndirectly recursive" else "")

/-- The mark of a rule's figures: only high and critical ones of a rule that is listed. -/
def MetricsRecord.mark? [DecidableEq Txt] (leaves : Leaves Txt Num) (report : ReportRecord Txt Num)
    (m : MetricsRecord Txt Num) : Option (Mark Txt Num) :=
  if m.grade.isHigh then
    (report.rule? m.name).map fun rule =>
      ⟨rule.line, rule.column, rule.name, if m.grade = .critical then .error else .warning,
        leaves.ofText (m.describe leaves), .complexity⟩
  else none

/-- The mark of a hint, on its own line at the column of its rule, if that is listed. -/
def HintRecord.mark? [DecidableEq Txt] (report : ReportRecord Txt Num)
    (h : HintRecord Txt Num) : Option (Mark Txt Num) :=
  (report.rule? h.rule).map fun rule =>
    ⟨h.line, rule.column, rule.name, .info, h.description, .ambiguity⟩

/-- The marks of a report: unused rules, issues, figures and hints. -/
def ReportRecord.marks [DecidableEq Txt] (leaves : Leaves Txt Num)
    (report : ReportRecord Txt Num) : List (Mark Txt Num) :=
  report.unused.map UnusedRecord.mark ++ report.issues.map (IssueRecord.mark leaves) ++
    report.complexity.filterMap (MetricsRecord.mark? leaves report) ++
    report.hints.filterMap (HintRecord.mark? report)

/-- The decorations of a report. There are none if a name covers no columns. -/
def ReportRecord.decorations? [DecidableEq Txt] (leaves : Leaves Txt Num)
    (report : ReportRecord Txt Num) : Option (List (DecorationRecord Txt Num)) :=
  (report.marks leaves).mapM (Mark.decorate? leaves)

end GrammarAudit
