import GrammarAudit.Finding.Issue
import GrammarAudit.Proofs.Finding.Grading
import GrammarAudit.Proofs.Sorting
import GrammarAudit.Report.Summary

/-!
# Issues rule by rule

The issues of a list of rules are those of each rule, sorted by severity. Only one of the checks
looks at the grade of a rule, and only at whether it is critical; it is also the only one that
reports errors.

- `stablySorted_performanceIssues`: the issues are sorted stably.
- `performanceIssues_eq_flatMap`: the sorted issues, severity by severity.
- `issuesByRule_complexity`: the issues of every rule are found in its own figures.
- `checkRule_eq`: the checks that look at the grade and those that do not.
- `checkRule_congr`, `checkRule_sublist`: the issues of a rule under other thresholds.
- `countIssues_complexity`: how many issues are errors, and that none is critical.
-/

namespace GrammarAudit

/-! ## Severity by severity -/

theorem Severity.rank_inj {s s' : Severity} (h : s.rank = s'.rank) : s = s' := by
  revert h
  cases s <;> cases s' <;> decide

/-- The issues are those of each rule, by rising rank of their severity. -/
theorem stablySorted_performanceIssues (rules : List Rule) (metrics : List Metrics) :
    StablySorted (· ≤ ·) (fun i : Issue => i.severity.rank) (issuesByRule rules metrics)
      (performanceIssues rules metrics) :=
  stablySorted_mergeSort (r := (· ≤ ·)) (fun _ _ _ => Nat.le_trans) Nat.le_total _ _

/-- The issues come severity by severity, each class in the order of the rules. -/
theorem performanceIssues_eq_flatMap (rules : List Rule) (metrics : List Metrics) :
    performanceIssues rules metrics =
      Severity.all.flatMap fun s => (issuesByRule rules metrics).filter fun i => i.severity = s := by
  have hall (s : Severity) : s.rank ∈ Severity.all.map Severity.rank := by
    cases s <;> decide
  have hclass (s : Severity) : (fun i : Issue => decide (i.severity.rank = s.rank)) =
      fun i => decide (i.severity = s) := by
    funext i
    exact decide_eq_decide.mpr ⟨Severity.rank_inj, fun h => h ▸ rfl⟩
  have hsorted := (stablySorted_performanceIssues rules metrics).eq_flatMap
    (by decide : (Severity.all.map Severity.rank).Pairwise (· < ·)) fun i _ => hall i.severity
  rw [hsorted, List.flatMap_map]
  simp only [hclass]

theorem mem_performanceIssues_iff {rules : List Rule} {metrics : List Metrics} {i : Issue} :
    i ∈ performanceIssues rules metrics ↔ i ∈ issuesByRule rules metrics :=
  (stablySorted_performanceIssues rules metrics).perm.mem_iff

/-- Leaving out issues of the rules leaves them out of the sorted list. -/
theorem performanceIssues_sublist {rules rules' : List Rule} {metrics metrics' : List Metrics}
    (h : (issuesByRule rules metrics).Sublist (issuesByRule rules' metrics')) :
    (performanceIssues rules metrics).Sublist (performanceIssues rules' metrics') := by
  -- each severity class of the shorter list is part of the class of the longer one
  rw [performanceIssues_eq_flatMap, performanceIssues_eq_flatMap]
  simp only [Severity.all, List.flatMap_cons, List.flatMap_nil]
  exact (h.filter _).append ((h.filter _).append ((h.filter _).append ((h.filter _).append
    List.Sublist.slnil)))

/-! ## Rule by rule -/

/-- Where no two rules have one name, every rule is checked against its own figures. -/
theorem issuesByRule_complexity {rules : List Rule} (g : Graph) (t : Thresholds)
    (distinctNames : (rules.map RuleRecord.name).Nodup) :
    issuesByRule rules (complexity rules g t) =
      rules.flatMap fun rule => checkRule rule (Metrics.ofRule g t rule) := by
  unfold issuesByRule
  rw [List.flatMap_def, List.flatMap_def]
  congr 1
  refine List.map_congr_left fun rule hrule => ?_
  rw [lastMetrics?_complexity distinctNames hrule]

/-- The checks that look at the figures of a rule and not at its grade. -/
def figureChecks : List Check :=
  [backtrackingCheck, lookaheadCheck, recursionCheck, nestingCheck]

/-- The issues that the figures of a rule give, whatever its grade. -/
def figureIssues (rule : Rule) (m : Metrics) : List Issue :=
  (figureChecks.filter fun check => check.fires m).map fun check => check.report rule m

/-- The issues of a rule: those of its figures, and at the end the one of a critical grade. -/
theorem checkRule_eq (rule : Rule) (m : Metrics) :
    checkRule rule m =
      figureIssues rule m ++ if m.grade = .critical then [criticalCheck.report rule m] else [] := by
  have hchecks : checks = figureChecks ++ [criticalCheck] := rfl
  have hfires : criticalCheck.fires m = decide (m.grade = .critical) := rfl
  -- the critical check is the last one, so what it reports is at the end
  rw [checkRule, hchecks, List.filter_append, List.map_append, List.filter_cons, List.filter_nil,
    hfires]
  by_cases h : m.grade = .critical
  · rw [decide_eq_true h, if_pos rfl, if_pos h]
    rfl
  · rw [decide_eq_false h, if_neg Bool.false_ne_true, if_neg h]
    rfl

theorem figureIssues_regrade (rule : Rule) (t : Thresholds) (m : Metrics) :
    figureIssues rule (m.regrade t) = figureIssues rule m := by
  have hsame : ∀ check ∈ figureChecks, check.fires (m.regrade t) = check.fires m ∧
      check.report rule (m.regrade t) = check.report rule m := by
    intro check hcheck
    simp only [figureChecks, List.mem_cons, List.not_mem_nil, or_false] at hcheck
    rcases hcheck with rfl | rfl | rfl | rfl <;> exact ⟨rfl, rfl⟩
  unfold figureIssues
  rw [List.filter_congr fun check hcheck => (hsame check hcheck).1]
  exact List.map_congr_left fun check hcheck => (hsame check (List.mem_filter.mp hcheck).1).2

/-! ## Under thresholds -/

theorem figureIssues_ofRule (g : Graph) (t t' : Thresholds) (rule : Rule) :
    figureIssues rule (Metrics.ofRule g t' rule) = figureIssues rule (Metrics.ofRule g t rule) := by
  rw [Metrics.ofRule_eq_regrade g t t' rule]
  exact figureIssues_regrade rule t' (Metrics.ofRule g t rule)

section Thresholds

variable {g : Graph} {t t' : Thresholds} {rule : Rule}

/-- The issues of a rule under thresholds: the critical threshold decides on one of them. -/
theorem checkRule_ofRule (g : Graph) (t : Thresholds) (rule : Rule) :
    checkRule rule (Metrics.ofRule g t rule) =
      figureIssues rule (Metrics.ofRule g t rule) ++
        if t.critical.le (.int (Metrics.ofRule g t rule).value) then
          [criticalCheck.report rule (Metrics.ofRule g t rule)] else [] := by
  have hgrade : (Metrics.ofRule g t rule).grade = .critical ↔
      t.critical.le (.int (Metrics.ofRule g t rule).value) = true := grade_eq_critical_iff
  rw [checkRule_eq]
  simp only [hgrade]

/-- Thresholds from which on the same values are critical give a rule the same issues, whatever
their high thresholds are. -/
theorem checkRule_congr (h : ∀ n, t.critical.le n = t'.critical.le n) :
    checkRule rule (Metrics.ofRule g t rule) = checkRule rule (Metrics.ofRule g t' rule) := by
  rw [checkRule_ofRule, checkRule_ofRule, figureIssues_ofRule g t t' rule, h]
  rfl

/-- A higher critical threshold gives a rule no more issues. -/
theorem checkRule_sublist (h : t.critical.le t'.critical = true) :
    (checkRule rule (Metrics.ofRule g t' rule)).Sublist
      (checkRule rule (Metrics.ofRule g t rule)) := by
  rw [checkRule_ofRule, checkRule_ofRule, figureIssues_ofRule g t t' rule]
  refine (List.Sublist.refl _).append ?_
  by_cases h' : t'.critical.le (.int (Metrics.ofRule g t' rule).value) = true
  · have hcritical : t.critical.le (.int (Metrics.ofRule g t rule).value) = true :=
      Number.le_trans h h'
    rw [if_pos h', if_pos hcritical]
    exact List.Sublist.refl _
  · rw [if_neg h']
    exact List.nil_sublist _

end Thresholds

/-! ## Counting errors -/

/-- What the figures of a rule give is never an error. -/
theorem severity_of_mem_figureIssues {rule : Rule} {m : Metrics} {i : Issue}
    (h : i ∈ figureIssues rule m) : i.severity = .warning ∨ i.severity = .info := by
  obtain ⟨check, hcheck, rfl⟩ := List.mem_map.mp h
  have hmem : check ∈ figureChecks := (List.mem_filter.mp hcheck).1
  simp only [figureChecks, List.mem_cons, List.not_mem_nil, or_false] at hmem
  rcases hmem with rfl | rfl | rfl | rfl
  · exact .inl rfl
  · exact .inl rfl
  · exact .inr rfl
  · exact .inr rfl

theorem countIssues_append (l l' : List Issue) (s : Severity) :
    countIssues (l ++ l') s = countIssues l s + countIssues l' s :=
  List.countP_append

theorem countIssues_figureIssues {s : Severity} (hs : s = .error ∨ s = .critical) (rule : Rule)
    (m : Metrics) : countIssues (figureIssues rule m) s = 0 := by
  refine List.countP_eq_zero.mpr fun i hi hsame => ?_
  have hsame : i.severity = s := of_decide_eq_true hsame
  rcases severity_of_mem_figureIssues hi with h | h <;> rcases hs with rfl | rfl <;>
    rw [h] at hsame <;> cases hsame

/-- A rule has one error if its value is critical, and otherwise none. -/
theorem countIssues_error_checkRule (g : Graph) (t : Thresholds) (rule : Rule) :
    countIssues (checkRule rule (Metrics.ofRule g t rule)) .error =
      if t.critical.le (.int (Metrics.ofRule g t rule).value) then 1 else 0 := by
  rw [checkRule_ofRule, countIssues_append, countIssues_figureIssues (.inl rfl), Nat.zero_add]
  split <;> rfl

/-- No issue of a rule is critical. -/
theorem countIssues_critical_checkRule (g : Graph) (t : Thresholds) (rule : Rule) :
    countIssues (checkRule rule (Metrics.ofRule g t rule)) .critical = 0 := by
  rw [checkRule_ofRule, countIssues_append, countIssues_figureIssues (.inr rfl), Nat.zero_add]
  split <;> rfl

theorem countIssues_performanceIssues (rules : List Rule) (metrics : List Metrics) (s : Severity) :
    countIssues (performanceIssues rules metrics) s =
      countIssues (issuesByRule rules metrics) s :=
  (List.mergeSort_perm _ _).countP_eq _

/-- There are as many errors as rules with a critical value, and no critical issues. -/
theorem countIssues_complexity {rules : List Rule} (g : Graph) (t : Thresholds)
    (distinctNames : (rules.map RuleRecord.name).Nodup) :
    countIssues (performanceIssues rules (complexity rules g t)) .error =
        rules.countP (fun rule => t.critical.le (.int (Metrics.ofRule g t rule).value)) ∧
      countIssues (performanceIssues rules (complexity rules g t)) .critical = 0 := by
  rw [countIssues_performanceIssues, countIssues_performanceIssues,
    issuesByRule_complexity g t distinctNames]
  -- rule by rule: the sorting and the names of the rules no longer matter
  clear distinctNames
  induction rules with
  | nil => exact ⟨rfl, rfl⟩
  | cons rule rules ih =>
    rw [List.flatMap_cons, countIssues_append, countIssues_append, ih.1, ih.2,
      countIssues_error_checkRule, countIssues_critical_checkRule, List.countP_cons]
    exact ⟨Nat.add_comm _ _, rfl⟩

end GrammarAudit
