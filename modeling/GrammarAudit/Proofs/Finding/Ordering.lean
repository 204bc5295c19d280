import GrammarAudit.Proofs.Finding.Issues
import GrammarAudit.Proofs.Options.Merge

/-!
# The order of figures and issues

The figures of the rules come by falling complexity value, and the issues of the rules by severity.
Both lists are sorted stably, so ties stay in the order of the rules, and the issues of one rule in
the order of the checks.

- `stablySorted_complexity`: the sorted figures.
- `lastMetrics?_eq_getLast?`: the record that the issues of a rule are found in.
- `figures_and_issues_in_order`: both lists, and when there are no figures.
-/

namespace GrammarAudit

/-- The figures are those of each rule, by falling value. -/
theorem stablySorted_complexity (rules : List Rule) (g : Graph) (t : Thresholds) :
    StablySorted (· ≥ ·) MetricsRecord.value (rules.map (Metrics.ofRule g t))
      (complexity rules g t) :=
  stablySorted_mergeSort (r := (· ≥ ·)) (fun _ _ _ hab hbc => Int.le_trans hbc hab)
    (fun a b => Int.le_total b a) _ _

theorem lastMetrics?_eq_getLast? (metrics : List Metrics) (name : String) :
    lastMetrics? metrics name = (metrics.filter fun m => m.name = name).getLast? :=
  List.getLast?_filter.symm

/-- The issues of a rule are found in the last record of its name, and there are none without it. -/
theorem issuesByRule_eq (rules : List Rule) (metrics : List Metrics) :
    issuesByRule rules metrics = rules.flatMap fun rule =>
      (metrics.filter fun m => m.name = rule.name).getLast?.elim [] (checkRule rule) := by
  unfold issuesByRule
  congr 1
  funext rule
  rw [lastMetrics?_eq_getLast?]
  cases (metrics.filter fun m => m.name = rule.name).getLast? <;> rfl

/-- **Figures and issues come in order.** Unless some rule cannot be graded, there is one record of
figures for each rule, and they come by falling value, ties in the order of the rules. A rule cannot
be graded exactly if it reaches neither threshold and half of the high one is out of range. The
issues of any rules under any figures are those of each rule in the last record of its name, by the
rank of their severity, ties in the order of the rules and then of the checks. -/
theorem figures_and_issues_in_order (rules : List Rule) (g : Graph) (t : Thresholds) :
    (complexityOverflows rules g t = true ↔
      halfOverflows t.high = true ∧ ∃ rule ∈ rules,
        t.critical.le (.int (Metrics.ofRule g t rule).value) = false ∧
          t.high.le (.int (Metrics.ofRule g t rule).value) = false) ∧
    StablySorted (· ≥ ·) MetricsRecord.value (rules.map (Metrics.ofRule g t))
      (complexity rules g t) ∧
    ∀ metrics : List Metrics,
      StablySorted (· ≤ ·) (fun i : Issue => i.severity.rank)
        (rules.flatMap fun rule =>
          (metrics.filter fun m => m.name = rule.name).getLast?.elim [] (checkRule rule))
        (performanceIssues rules metrics) := by
  refine ⟨complexityOverflows_iff, stablySorted_complexity rules g t, fun metrics => ?_⟩
  rw [← issuesByRule_eq]
  exact stablySorted_performanceIssues rules metrics

/-- A high threshold of a one with four hundred zeros is valid, and yet there are no figures under
it for a rule that is not critical. -/
theorem no_figures_of_large_threshold :
    let rule : Rule := ⟨"a", .parser, 1, 0, 1, 1, "a : a ;", 1, ["a"], []⟩
    let o : Options := { high := .int (Nat.pow 10 400) }
    o.Valid ∧ complexityOverflows [rule] (Graph.ofRules [rule]) o.thresholds = true := by
  intro rule o
  exact ⟨fun name => OptionName.fault?_eq_none_iff.mp (by cases name <;> decide +kernel),
    by decide +kernel⟩

end GrammarAudit
