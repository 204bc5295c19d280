import GrammarAudit.Finding.Issue
import GrammarAudit.Proofs.Number.Half
import Mathlib.Data.List.Nodup

/-!
# Grades under other thresholds

The thresholds bear on nothing but the grades: the figures of a rule and their order in a list are
the same under any two. Higher thresholds never give a worse grade, although the medium one is the
rounded half of the high one and the critical one is looked at first, whichever is larger.

- `grade_eq_critical_iff`: when a value is critical.
- `rank_grade_le`: grades under higher thresholds.
- `Metrics.regrade`, `complexity_eq_map_regrade`: figures under other thresholds.
- `complexityOverflows_iff`: when the figures of some rule cannot be graded.
- `lastMetrics?_complexity`: the figures listed for a rule are its own.
-/

namespace GrammarAudit

variable {t t' : Thresholds}

/-! ## One value -/

theorem grade_eq_critical_iff {value : Int} :
    grade t value = .critical ↔ t.critical.le (.int value) = true := by
  unfold grade
  split
  · simp [*]
  · split
    · simp [*]
    · split <;> simp [*]

/-- The places of the grades that a value is given from each threshold on. -/
theorem rank_grade (t : Thresholds) (value : Int) :
    (grade t value).rank =
      if t.critical.le (.int value) then 3
      else if t.high.le (.int value) then 2
      else if t.high.half.le (.int value) then 1
      else 0 := by
  unfold grade
  repeat' split
  all_goals rfl

/-- Higher thresholds never give a worse grade. -/
theorem rank_grade_le (high : t.high.le t'.high = true) (critical : t.critical.le t'.critical = true)
    (value : Int) : (grade t' value).rank ≤ (grade t value).rank := by
  have hcritical : t'.critical.le (.int value) = true → t.critical.le (.int value) = true :=
    Number.le_trans critical
  have hhigh : t'.high.le (.int value) = true → t.high.le (.int value) = true :=
    Number.le_trans high
  have hmedium : t'.high.half.le (.int value) = true → t.high.half.le (.int value) = true :=
    Number.le_trans (Number.half_le_half high)
  rw [rank_grade, rank_grade]
  by_cases h₃ : t'.critical.le (.int value) = true
  · apply Nat.le_of_eq
    rw [if_pos h₃, if_pos (hcritical h₃)]
  · rw [if_neg h₃]
    by_cases h₂ : t'.high.le (.int value) = true
    · rw [if_pos h₂, if_pos (hhigh h₂)]
      split <;> omega
    · rw [if_neg h₂]
      by_cases h₁ : t'.high.half.le (.int value) = true
      · rw [if_pos h₁, if_pos (hmedium h₁)]
        split
        · omega
        · split <;> omega
      · rw [if_neg h₁]
        exact Nat.zero_le _

/-! ## Figures -/

/-- Figures with the grade that their value has under other thresholds. -/
def Metrics.regrade (t : Thresholds) (m : Metrics) : Metrics :=
  { m with grade := grade t m.value }

theorem Metrics.ofRule_eq_regrade (g : Graph) (t t' : Thresholds) (rule : Rule) :
    Metrics.ofRule g t' rule = (Metrics.ofRule g t rule).regrade t' := rfl

/-- Other thresholds change the grades in a list of figures, and neither the figures nor their
order. -/
theorem complexity_eq_map_regrade (rules : List Rule) (g : Graph) (t t' : Thresholds) :
    complexity rules g t' = (complexity rules g t).map (Metrics.regrade t') := by
  have hfigures : rules.map (Metrics.ofRule g t') =
      (rules.map (Metrics.ofRule g t)).map (Metrics.regrade t') := by
    rw [List.map_map]
    rfl
  -- the figures are sorted by their values, and these are not regraded
  have hvalue : ∀ a ∈ rules.map (Metrics.ofRule g t), ∀ b ∈ rules.map (Metrics.ofRule g t),
      decide (b.value ≤ a.value) =
        decide ((Metrics.regrade t' b).value ≤ (Metrics.regrade t' a).value) :=
    fun _ _ _ _ => rfl
  unfold complexity
  rw [hfigures]
  exact (List.map_mergeSort (f := Metrics.regrade t') hvalue).symm

/-- There are one rule's figures for each rule. -/
theorem complexity_perm (rules : List Rule) (g : Graph) (t : Thresholds) :
    (complexity rules g t).Perm (rules.map (Metrics.ofRule g t)) :=
  List.mergeSort_perm _ _

theorem mem_complexity_iff {rules : List Rule} {g : Graph} {m : Metrics} :
    m ∈ complexity rules g t ↔ ∃ rule ∈ rules, Metrics.ofRule g t rule = m := by
  rw [(complexity_perm rules g t).mem_iff, List.mem_map]

/-- Some rule cannot be graded exactly if half of the high threshold is out of range and is looked
at: a rule reaches neither threshold. -/
theorem complexityOverflows_iff {rules : List Rule} {g : Graph} :
    complexityOverflows rules g t = true ↔
      halfOverflows t.high = true ∧ ∃ rule ∈ rules,
        t.critical.le (.int (Metrics.ofRule g t rule).value) = false ∧
          t.high.le (.int (Metrics.ofRule g t rule).value) = false := by
  rw [complexityOverflows, List.any_eq_true]
  constructor
  · rintro ⟨m, hm, hoverflows⟩
    obtain ⟨rule, hrule, rfl⟩ := mem_complexity_iff.mp hm
    simp only [gradeOverflows, Bool.and_eq_true, Bool.not_eq_true'] at hoverflows
    exact ⟨hoverflows.2, rule, hrule, hoverflows.1⟩
  · rintro ⟨hhalf, rule, hrule, hbelow⟩
    refine ⟨_, mem_complexity_iff.mpr ⟨rule, hrule, rfl⟩, ?_⟩
    simp only [gradeOverflows, Bool.and_eq_true, Bool.not_eq_true']
    exact ⟨hbelow, hhalf⟩

/-- Where no two rules have one name, the figures listed for the name of a rule are its own. -/
theorem lastMetrics?_complexity {rules : List Rule} {g : Graph}
    (distinctNames : (rules.map RuleRecord.name).Nodup) {rule : Rule} (h : rule ∈ rules) :
    lastMetrics? (complexity rules g t) rule.name = some (Metrics.ofRule g t rule) := by
  have hlisted : Metrics.ofRule g t rule ∈ (complexity rules g t).reverse :=
    List.mem_reverse.mpr (mem_complexity_iff.mpr ⟨rule, h, rfl⟩)
  unfold lastMetrics?
  cases hfind : (complexity rules g t).reverse.find? fun m => m.name = rule.name with
  | none =>
    have hnone := List.find?_eq_none.mp hfind _ hlisted
    exact absurd (decide_eq_true rfl) hnone
  | some m =>
    have hname : m.name = rule.name := by simpa using List.find?_some hfind
    obtain ⟨other, hother, rfl⟩ :=
      mem_complexity_iff.mp (List.mem_reverse.mp (List.mem_of_find?_eq_some hfind))
    rw [List.inj_on_of_nodup_map distinctNames hother h hname]

end GrammarAudit
