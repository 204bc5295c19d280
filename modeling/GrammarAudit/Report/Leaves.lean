import GrammarAudit.Json.Basic
import GrammarAudit.Report.Basic

/-!
# Leaves of a report

A report of an analysis holds texts and integers. A report that is read from a document may hold
any value in their place.

- `ReportRecord.map`: a report with its texts and numbers replaced.
- `Document`: a report over JSON values.
- `Report.toDocument`: the document of a report.
- `Leaves`: what the projections of a report have to know about its texts and numbers.
-/

namespace GrammarAudit

variable {Txt Num Txt' Num' : Type}

/-- A rule with its texts and numbers replaced. -/
def RuleRecord.map (f : Txt → Txt') (g : Num → Num') (r : RuleRecord Txt Num) :
    RuleRecord Txt' Num' :=
  { name := f r.name, kind := r.kind, line := g r.line, column := g r.column
    endLine := g r.endLine, endColumn := g r.endColumn, text := f r.text
    alternativeCount := g r.alternativeCount, references := r.references.map f
    referencedBy := r.referencedBy.map f }

/-- An unused rule with its texts and numbers replaced. -/
def UnusedRecord.map (f : Txt → Txt') (g : Num → Num') (u : UnusedRecord Txt Num) :
    UnusedRecord Txt' Num' :=
  { name := f u.name, kind := u.kind, line := g u.line, column := g u.column
    suggestion := f u.suggestion }

/-- Figures with their texts and numbers replaced. -/
def MetricsRecord.map (f : Txt → Txt') (g : Num → Num') (m : MetricsRecord Txt Num) :
    MetricsRecord Txt' Num' :=
  { name := f m.name, kind := m.kind, line := g m.line, depth := g m.depth
    alternatives := g m.alternatives, referenceCount := g m.referenceCount
    directlyRecursive := m.directlyRecursive, indirectlyRecursive := m.indirectlyRecursive
    lookahead := g m.lookahead, grade := m.grade, value := g m.value }

/-- An issue with its texts and numbers replaced. -/
def IssueRecord.map (f : Txt → Txt') (g : Num → Num') (i : IssueRecord Txt Num) :
    IssueRecord Txt' Num' :=
  { rule := f i.rule, kind := i.kind, line := g i.line, column := g i.column
    severity := i.severity, issue := f i.issue, description := f i.description
    suggestion := f i.suggestion, category := i.category }

/-- A hint with its texts and numbers replaced. -/
def HintRecord.map (f : Txt → Txt') (g : Num → Num') (h : HintRecord Txt Num) :
    HintRecord Txt' Num' :=
  { rule := f h.rule, line := g h.line, alternatives := h.alternatives.map g
    commonTokens := h.commonTokens.map f, description := f h.description }

/-- A mention of an undefined name with its texts and numbers replaced. -/
def DanglingRecord.map (f : Txt → Txt') (g : Num → Num') (d : DanglingRecord Txt Num) :
    DanglingRecord Txt' Num' :=
  { rule := f d.rule, name := f d.name, line := g d.line, column := g d.column }

/-- A report with its texts and numbers replaced. -/
def ReportRecord.map (f : Txt → Txt') (g : Num → Num') (r : ReportRecord Txt Num) :
    ReportRecord Txt' Num' :=
  { summary := r.summary
    rules := r.rules.map (·.map f g)
    unused := r.unused.map (·.map f g)
    complexity := r.complexity.map (·.map f g)
    issues := r.issues.map (·.map f g)
    hints := r.hints.map (·.map f g)
    dangling := r.dangling.map (·.map f g)
    timestamp := r.timestamp
    duration := r.duration
    fingerprint := r.fingerprint }

/-- A report as it is held in a document. -/
abbrev Document := ReportRecord Json Json

/-- The document of a report. -/
def Report.toDocument (report : Report) : Document :=
  report.map Json.str Json.int

/-- What a projection has to know about texts and numbers: how they are shown, and which columns a
name covers that starts at a column. -/
structure Leaves (Txt Num : Type) where
  showText : Txt → String
  showNumber : Num → String
  ofText : String → Txt
  span? : Num → Txt → Option (Num × Num)

/-- Texts and integers. Columns are counted from one in a span, and its end is exclusive. -/
def Leaves.ofReport : Leaves String Int where
  showText := id
  showNumber := Text.decimal
  ofText := id
  span? column name := some (column + 1, column + name.length + 1)

/-- A value as a number, if it is one. -/
def Json.number? : Json → Option Number
  | .num n => some n
  | .bool b => some (.int (if b then 1 else 0))
  | _ => none

/-- The number of characters, items or fields of a value. -/
def Json.length? : Json → Option Nat
  | .str s => some s.length
  | .list items => some items.length
  | .object fields => some fields.length
  | _ => none

/-- JSON values, where a column has to be a number and a name something that has a length. -/
def Leaves.ofDocument : Leaves Json Json where
  showText := Json.plain
  showNumber := Json.plain
  ofText := Json.str
  span? column name := do
    let start ← column.number?
    let width ← name.length?
    some (.num (start.add (.int 1)), .num ((start.add (.int width)).add (.int 1)))

end GrammarAudit
