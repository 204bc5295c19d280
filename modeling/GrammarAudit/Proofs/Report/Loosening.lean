import GrammarAudit.Proofs.Report.Sections

/-!
# Reports under looser thresholds

Higher thresholds never make a report worse. The figures of the rules and their order stay, no grade
gets worse, issues can only disappear, and so can errors. Neither threshold has to be above the
other one, and both may be integers of any size or floating-point numbers.

- `Metrics.Eases`: the same figures with a grade that is no worse.
- `Loosens`: options that differ in higher thresholds only.
- `report_of_loosened`: the reports under two such options.
-/

namespace GrammarAudit

/-- The same figures of a rule, with a grade that is at most as bad. -/
def Metrics.Eases (m m' : Metrics) : Prop :=
  m' = { m with grade := m'.grade } ∧ m'.grade.rank ≤ m.grade.rank

/-- The second options differ from the first in nothing but thresholds that are at least as high. -/
structure Loosens (o o' : Options) : Prop where
  others : o' = { o with high := o'.high, critical := o'.critical }
  high : o.high.le o'.high = true
  critical : o.critical.le o'.critical = true

/-- Figures under higher thresholds are eased one by one, in the same order. -/
theorem forall₂_eases_complexity {t t' : Thresholds} (high : t.high.le t'.high = true)
    (critical : t.critical.le t'.critical = true) (rules : List Rule) (g : Graph) :
    List.Forall₂ Metrics.Eases (complexity rules g t) (complexity rules g t') := by
  rw [complexity_eq_map_regrade rules g t t', List.forall₂_map_right_iff, List.forall₂_same]
  intro m hm
  obtain ⟨rule, -, rfl⟩ := mem_complexity_iff.mp hm
  exact ⟨rfl, rank_grade_le high critical _⟩

/-- Under a higher critical threshold the issues of a grammar are some of those that it had. -/
theorem performanceIssues_sublist_of_le {t t' : Thresholds}
    (critical : t.critical.le t'.critical = true) (source : List Char) :
    (performanceIssues (attachedRules source)
        (complexity (attachedRules source) (graphOf source) t')).Sublist
      (performanceIssues (attachedRules source)
        (complexity (attachedRules source) (graphOf source) t)) := by
  apply performanceIssues_sublist
  rw [issuesByRule_of_source, issuesByRule_of_source]
  induction attachedRules source with
  | nil => exact List.Sublist.slnil
  | cons rule rules ih =>
    rw [List.flatMap_cons, List.flatMap_cons]
    exact (checkRule_sublist critical).append ih

theorem sectionIf_sublist {α : Type} (on : Bool) {findings findings' : List α}
    (h : findings.Sublist findings') : (sectionIf on findings).Sublist (sectionIf on findings') := by
  cases on with
  | true => exact h
  | false => exact List.Sublist.slnil

/-- Fewer issues count no more errors. -/
theorem hasErrors_of_sublist {issues issues' : List Issue} (h : issues.Sublist issues')
    (unused unused' : List Unused) (hints hints' : List Hint)
    (errors : (Tally.ofFindings unused issues hints).hasErrors = true) :
    (Tally.ofFindings unused' issues' hints').hasErrors = true := by
  have hcount (s : Severity) : countIssues issues s ≤ countIssues issues' s := h.countP_le
  have herror := hcount .error
  have hcritical := hcount .critical
  have hpositive : 0 < (countIssues issues .error : Int) + countIssues issues .critical :=
    of_decide_eq_true errors
  have hpositive' : 0 < (countIssues issues' .error : Int) + countIssues issues' .critical := by
    omega
  exact decide_eq_true hpositive'

/-- **Looser thresholds never make a report worse**: the figures and their order stay, no grade gets
worse, the issues that stay keep their order and no new ones come, and neither do errors. -/
theorem report_of_loosened {o o' : Options} (loosened : Loosens o o') (source : List Char)
    (timing timing' : Timing) :
    List.Forall₂ Metrics.Eases (Report.of source o timing).complexity
        (Report.of source o' timing').complexity ∧
      (Report.of source o' timing').issues.Sublist (Report.of source o timing).issues ∧
      ((Report.of source o' timing').hasErrors = true →
        (Report.of source o timing).hasErrors = true) := by
  have hcomplexity : o'.analyzeComplexity = o.analyzeComplexity := by rw [loosened.others]
  have hissues : o'.detectIssues = o.detectIssues := by rw [loosened.others]
  have hsublist : (Report.of source o' timing').issues.Sublist
      (Report.of source o timing).issues := by
    show (sectionIf o'.detectIssues _).Sublist (sectionIf o.detectIssues _)
    rw [hissues]
    exact sectionIf_sublist _ (performanceIssues_sublist_of_le loosened.critical source)
  refine ⟨?eases, hsublist, hasErrors_of_sublist hsublist _ _ _ _⟩
  show List.Forall₂ Metrics.Eases (sectionIf o.analyzeComplexity _)
    (sectionIf o'.analyzeComplexity _)
  rw [hcomplexity]
  cases o.analyzeComplexity with
  | true => exact forall₂_eases_complexity loosened.high loosened.critical _ _
  | false => exact .nil

/-- A critical threshold below the high one, and one that is infinite: the errors disappear. -/
theorem report_of_loosened_unbounded :
    let source := "a : a 'x' ;".toList
    let o : Options := { high := .int 8, critical := .int 5 }
    let o' : Options := { high := .int 50, critical := .real (.infinite false) }
    let timing : Timing := ⟨.nan, .nan⟩
    Loosens o o' ∧
      (Report.of source o timing).hasErrors = true ∧
      (Report.of source o' timing).hasErrors = false ∧
      List.Forall₂ Metrics.Eases (Report.of source o timing).complexity
        (Report.of source o' timing).complexity ∧
      (Report.of source o' timing).issues.Sublist (Report.of source o timing).issues := by
  intro source o o' timing
  have hloosens : Loosens o o' := ⟨rfl, by decide +kernel, by decide +kernel⟩
  obtain ⟨heases, hsublist, -⟩ := report_of_loosened hloosens source timing timing
  exact ⟨hloosens, by decide +kernel, by decide +kernel, heases, hsublist⟩

end GrammarAudit
