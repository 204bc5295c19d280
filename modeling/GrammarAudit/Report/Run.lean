import GrammarAudit.Fingerprint
import GrammarAudit.Grammar.Discovery
import GrammarAudit.Options.Basic
import GrammarAudit.Report.Basic

/-!
# Running an analysis

- `attachedRules`, `graphOf`: the rules of a grammar with their neighbours, and their graph.
- `Report.of`: the report on a grammar under options. Each option switches one section.
- `cannotGrade`: when thresholds are out of range for the rules of a grammar.
-/

namespace GrammarAudit

/-- When an analysis ran, in seconds, and how long it took, in milliseconds. -/
structure Timing where
  timestamp : Double
  duration : Double
deriving DecidableEq, Repr

/-- The reference graph of a grammar. -/
def graphOf (source : List Char) : Graph :=
  .ofRules (Grammar.rulesOf source)

/-- The rules of a grammar with the neighbours that the graph gives them. -/
def attachedRules (source : List Char) : List Rule :=
  let found := Grammar.rulesOf source
  (Graph.ofRules found).attach found

/-- A section that is empty unless it is switched on. -/
def sectionIf {α : Type} (on : Bool) (findings : List α) : List α :=
  if on then findings else []

/-- The report on a grammar. Issues are derived from the figures whether or not those are
reported. -/
def Report.of (source : List Char) (o : Options) (timing : Timing) : Report :=
  let found := Grammar.rulesOf source
  let g := Graph.ofRules found
  let rules := g.attach found
  let metrics := GrammarAudit.complexity rules g o.thresholds
  let unused := sectionIf o.detectUnused (unusedRules rules g o.startRule)
  let reported := sectionIf o.analyzeComplexity metrics
  let issues := sectionIf o.detectIssues (performanceIssues rules metrics)
  let hints := sectionIf o.detectAmbiguity (ambiguityHints rules)
  { summary := .ofFindings rules unused reported issues hints
    rules := rules
    unused := unused
    complexity := reported
    issues := issues
    hints := hints
    dangling := sectionIf o.detectDangling (g.dangling rules)
    timestamp := timing.timestamp
    duration := timing.duration
    fingerprint := GrammarAudit.fingerprint source }

/-- Whether a rule of a grammar cannot be graded under the options. -/
def cannotGrade (source : List Char) (o : Options) : Bool :=
  let found := Grammar.rulesOf source
  let g := Graph.ofRules found
  complexityOverflows (g.attach found) g o.thresholds

end GrammarAudit
