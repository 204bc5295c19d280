import GrammarAudit.Proofs.Report.Sections

/-!
# Errors in a report

A report has errors exactly if issues are looked for and some rule is critical, whether or not the
figures are reported. Unused rules and hints are tallied as well, yet never as errors.

- `isCritical`: whether the complexity value of a rule reaches the critical threshold.
- `CountsCriticalRules`, `countsCriticalRules_of_report`: what the errors of a report are.
- `cannotGrade_iff`: when there is no report.
-/

namespace GrammarAudit

/-- Whether the complexity value of a rule of a grammar is at least the critical threshold. -/
def isCritical (source : List Char) (o : Options) (rule : Rule) : Bool :=
  o.critical.le (.int (Metrics.ofRule (graphOf source) o.thresholds rule).value)

/-- The errors of a report are its critical rules, provided that issues are looked for: the tally
counts them all, and no finding of it is worse than an error. -/
structure CountsCriticalRules (source : List Char) (o : Options) (report : Report) : Prop where
  hasErrors : report.hasErrors = true ↔
    o.detectIssues = true ∧ ∃ rule ∈ report.rules, isCritical source o rule = true
  error : report.summary.tally.error =
    if o.detectIssues then (report.rules.countP (isCritical source o) : Int) else 0
  critical : report.summary.tally.critical = 0

/-- The issues of a grammar count its critical rules. -/
theorem countIssues_of_source (source : List Char) (o : Options) :
    countIssues (performanceIssues (attachedRules source)
        (complexity (attachedRules source) (graphOf source) o.thresholds)) .error =
      (attachedRules source).countP (isCritical source o) ∧
    countIssues (performanceIssues (attachedRules source)
        (complexity (attachedRules source) (graphOf source) o.thresholds)) .critical = 0 :=
  countIssues_complexity (graphOf source) o.thresholds (nodup_names_attachedRules source)

theorem tally_of_report (source : List Char) (o : Options) (timing : Timing) :
    (Report.of source o timing).summary.tally.error =
        (if o.detectIssues then ((attachedRules source).countP (isCritical source o) : Int) else 0) ∧
      (Report.of source o timing).summary.tally.critical = 0 := by
  obtain ⟨herror, hcritical⟩ := countIssues_of_source source o
  show (countIssues (sectionIf o.detectIssues _) .error : Int) = _ ∧
    (countIssues (sectionIf o.detectIssues _) .critical : Int) = 0
  cases o.detectIssues with
  | true => exact ⟨congrArg Int.ofNat herror, congrArg Int.ofNat hcritical⟩
  | false => exact ⟨rfl, rfl⟩

/-- **The errors of a report are its critical rules.** -/
theorem countsCriticalRules_of_report (source : List Char) (o : Options) (timing : Timing) :
    CountsCriticalRules source o (Report.of source o timing) := by
  obtain ⟨herror, hcritical⟩ := tally_of_report source o timing
  refine ⟨?hasErrors, herror, hcritical⟩
  have hsum : (Report.of source o timing).hasErrors = true ↔
      0 < (Report.of source o timing).summary.tally.error +
        (Report.of source o timing).summary.tally.critical := decide_eq_true_iff
  rw [hsum, herror, hcritical, Int.add_zero]
  show _ ↔ _ ∧ ∃ rule ∈ attachedRules source, isCritical source o rule = true
  cases o.detectIssues with
  | true =>
    have hcount : 0 < (attachedRules source).countP (isCritical source o) ↔
        ∃ rule ∈ attachedRules source, isCritical source o rule = true := List.countP_pos_iff
    rw [if_pos rfl, ← hcount]
    simp only [true_and]
    omega
  | false => simp

/-- Some rule cannot be graded exactly if half of the high threshold is out of range and is looked
at: a rule reaches neither threshold. -/
theorem cannotGrade_iff {source : List Char} {o : Options} :
    cannotGrade source o = true ↔
      halfOverflows o.high = true ∧ ∃ rule ∈ attachedRules source,
        isCritical source o rule = false ∧
          o.high.le (.int (Metrics.ofRule (graphOf source) o.thresholds rule).value) = false :=
  complexityOverflows_iff

end GrammarAudit
