import GrammarAudit.Report.Run
import Mathlib.Algebra.BigOperators.Group.List.Basic
import Mathlib.Algebra.GroupWithZero.Nat
import Mathlib.Algebra.Ring.Int.Defs
import Mathlib.Data.List.Nodup

/-!
# The accounts of a report

The summary of a report is counted from its sections, whichever of these are switched off. Its
counts agree with the sections and with each other: every rule is of one kind, and every issue,
every unused rule and every hint is counted under one severity.

- `sum_countP`: entries that are counted class by class.
- `AddsUp`: what holds between the counts and the sections of a report.
- `addsUp_of_report`: the accounts of every report add up.
-/

namespace GrammarAudit

/-! ## Counting by classes -/

/-- Entries that each belong to one of some distinct classes are all counted class by class. -/
theorem sum_countP {α β : Type} [DecidableEq β] (f : α → β) (classes : List β)
    (hnodup : classes.Nodup) {l : List α} (hclasses : ∀ a ∈ l, f a ∈ classes) :
    (classes.map fun c => l.countP fun a => f a = c).sum = l.length := by
  induction l with
  | nil => simp
  | cons a l ih =>
    have hone : (classes.map fun c => if f a = c then 1 else 0).sum = 1 := by
      rw [List.sum_map_eq_nsmul_single (f a) _ fun c hc _ => if_neg (Ne.symm hc), if_pos rfl,
        List.count_eq_one_of_mem hnodup (hclasses a List.mem_cons_self), one_nsmul]
    simp only [List.countP_cons, decide_eq_true_eq]
    rw [List.sum_map_add, hone, ih fun b hb => hclasses b (List.mem_cons_of_mem a hb),
      List.length_cons]

/-- Every rule is of one kind. -/
theorem countKind_add (rules : List Rule) :
    countKind rules .parser + countKind rules .lexer + countKind rules .fragment =
      rules.length := by
  have hkinds : ∀ rule ∈ rules, rule.kind ∈ Kind.all := by
    intro rule _
    cases rule.kind <;> decide
  rw [← sum_countP RuleRecord.kind Kind.all (by decide) hkinds]
  simp [Kind.all, countKind, Nat.add_assoc]

/-- Every issue is of one severity. -/
theorem countIssues_add (issues : List Issue) :
    countIssues issues .critical + countIssues issues .error + countIssues issues .warning +
      countIssues issues .info = issues.length := by
  have hseverities : ∀ i ∈ issues, i.severity ∈ Severity.all := by
    intro i _
    cases i.severity <;> decide
  rw [← sum_countP IssueRecord.severity Severity.all (by decide) hseverities]
  simp [Severity.all, countIssues, Nat.add_assoc]

/-- The count of a severity: the issues of that severity, and with them the unused rules as
warnings and the hints as information. -/
theorem Tally.count_ofFindings (unused : List Unused) (issues : List Issue) (hints : List Hint)
    (s : Severity) :
    (Tally.ofFindings unused issues hints).count s =
      countIssues issues s + (if s = .warning then unused.length else 0) +
        (if s = .info then hints.length else 0) := by
  cases s <;> simp [Tally.count, Tally.ofFindings]

/-! ## Reports -/

/-- The counts of a report agree with its sections and with each other. -/
structure AddsUp (report : Report) : Prop where
  total : report.summary.totalRules = report.rules.length
  parser : report.summary.parserRules = (Rule.ofKind .parser report.rules).length
  lexer : report.summary.lexerRules = (Rule.ofKind .lexer report.rules).length
  fragment : report.summary.fragmentRules = (Rule.ofKind .fragment report.rules).length
  kinds : report.summary.totalRules =
    report.summary.parserRules + report.summary.lexerRules + report.summary.fragmentRules
  unused : report.summary.unusedRules = report.unused.length
  issues : report.summary.performanceIssues = report.issues.length
  hints : report.summary.ambiguityHints = report.hints.length
  highComplexity : report.summary.highComplexityRules =
    (report.complexity.filter fun m => m.grade = .high ∨ m.grade = .critical).length
  tally : ∀ s, report.summary.tally.count s =
    (report.issues.filter fun i => i.severity = s).length +
      (if s = .warning then report.unused.length else 0) +
        (if s = .info then report.hints.length else 0)
  tally_others : report.summary.tally.others = []
  tally_sum : (Severity.all.map report.summary.tally.count).sum =
    report.summary.unusedRules + report.summary.performanceIssues + report.summary.ambiguityHints

/-- A summary of the findings of a report adds up. -/
theorem addsUp_of_summary {report : Report}
    (h : report.summary = .ofFindings report.rules report.unused report.complexity report.issues
      report.hints) : AddsUp report := by
  have hkind (k : Kind) : (countKind report.rules k : Int) =
      (Rule.ofKind k report.rules).length := by
    rw [countKind, Rule.ofKind, List.countP_eq_length_filter]
  have htally (s : Severity) : report.summary.tally.count s =
      countIssues report.issues s + (if s = .warning then report.unused.length else 0) +
        (if s = .info then report.hints.length else 0) := by
    rw [h]
    exact_mod_cast Tally.count_ofFindings report.unused report.issues report.hints s
  constructor
  case total => rw [h]; rfl
  case parser => rw [h]; exact hkind .parser
  case lexer => rw [h]; exact hkind .lexer
  case fragment => rw [h]; exact hkind .fragment
  case kinds =>
    rw [h]
    show (report.rules.length : Int) = countKind report.rules .parser +
      countKind report.rules .lexer + countKind report.rules .fragment
    exact_mod_cast (countKind_add report.rules).symm
  case unused => rw [h]; rfl
  case issues => rw [h]; rfl
  case hints => rw [h]; rfl
  case highComplexity =>
    rw [h]
    show ((report.complexity.countP fun m => m.grade.isHigh : Nat) : Int) = _
    rw [List.countP_eq_length_filter]
    simp only [Grade.isHigh, Bool.decide_or]
  case tally =>
    intro s
    rw [htally, countIssues, List.countP_eq_length_filter]
  case tally_others => rw [h]; rfl
  case tally_sum =>
    have hissues := countIssues_add report.issues
    have hsummary : report.summary.unusedRules = report.unused.length ∧
        report.summary.performanceIssues = report.issues.length ∧
        report.summary.ambiguityHints = report.hints.length := by
      rw [h]
      exact ⟨rfl, rfl, rfl⟩
    simp only [Severity.all, List.map_cons, List.map_nil, List.sum_cons, List.sum_nil, htally,
      hsummary]
    simp
    omega

/-- **The accounts of every report add up**, whatever the source is and whichever sections are
switched off. -/
theorem addsUp_of_report (source : List Char) (o : Options) (timing : Timing) :
    AddsUp (Report.of source o timing) :=
  addsUp_of_summary rfl

end GrammarAudit
