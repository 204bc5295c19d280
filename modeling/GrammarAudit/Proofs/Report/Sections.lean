import GrammarAudit.Proofs.Finding.Issues
import GrammarAudit.Proofs.Grammar.Registration
import GrammarAudit.Proofs.Graph.Duality
import GrammarAudit.Report.Run

/-!
# Options and sections

Every section of a report is switched by one option, and it depends on no options but that one and
those that its analysis reads. The figures are computed even when they are not reported, and issues
are derived from them; yet of all that is graded, only the critical threshold bears on an issue. An
analysis that cannot grade a rule (`cannotGrade`) gives no report; what is said here is about the
reports that are given.

- `mem_sectionIf_iff`: the findings in a section.
- `nodup_names_attachedRules`: no two rules of a grammar have one name.
- `issuesByRule_of_source`: the issues of a grammar, rule by rule.
- `AgreeOnSections`, `LeavesOut`: two reports, and one, against their options.
- `sections_of_options`: what each option bears on.
-/

namespace GrammarAudit

open Grammar

@[simp] theorem sectionIf_true {α : Type} (findings : List α) : sectionIf true findings = findings :=
  rfl

@[simp] theorem sectionIf_false {α : Type} (findings : List α) : sectionIf false findings = [] :=
  rfl

theorem mem_sectionIf_iff {α : Type} {on : Bool} {findings : List α} {a : α} :
    a ∈ sectionIf on findings ↔ on = true ∧ a ∈ findings := by
  cases on with
  | true => simp
  | false => simp

/-! ## The rules of a grammar -/

/-- No two rules of a grammar have one name. -/
theorem nodup_names_attachedRules (source : List Char) :
    ((attachedRules source).map RuleRecord.name).Nodup := by
  have hnames : (rulesOf source).map RuleRecord.name =
      ((fragmentDefinitions (scanDefinitions (strip source)) ++
        lexerDefinitions source (scanDefinitions (strip source)) ++
          parserDefinitions (scanDefinitions (strip source))).map Definition.name).map
            String.ofList := by
    simp only [rulesOf, extractRules, List.map_append, List.map_map]
    rfl
  show (((graphOf source).attach (rulesOf source)).map RuleRecord.name).Nodup
  rw [Graph.map_name_attach, hnames]
  exact (nodup_names source (strip source)).map fun _ _ h => String.ofList_inj.mp h

/-- The issues of a grammar: those of each rule, checked against its own figures. -/
theorem issuesByRule_of_source (source : List Char) (t : Thresholds) :
    issuesByRule (attachedRules source) (complexity (attachedRules source) (graphOf source) t) =
      (attachedRules source).flatMap fun rule =>
        checkRule rule (Metrics.ofRule (graphOf source) t rule) :=
  issuesByRule_complexity (graphOf source) t (nodup_names_attachedRules source)

/-! ## Two reports on one grammar -/

/-- Two reports agree on the rules, and on every section for which the switch and what the analysis
reads agree. Thresholds agree when they are the same number, be it as an integer or not. -/
structure AgreeOnSections (o o' : Options) (report report' : Report) : Prop where
  rules : report.rules = report'.rules
  unused : o.detectUnused = o'.detectUnused → o.startRule = o'.startRule →
    report.unused = report'.unused
  complexity : o.analyzeComplexity = o'.analyzeComplexity →
    o.high.canonical = o'.high.canonical → o.critical.canonical = o'.critical.canonical →
      report.complexity = report'.complexity
  issues : o.detectIssues = o'.detectIssues → o.critical.canonical = o'.critical.canonical →
    report.issues = report'.issues
  hints : o.detectAmbiguity = o'.detectAmbiguity → report.hints = report'.hints
  dangling : o.detectDangling = o'.detectDangling → report.dangling = report'.dangling

/-- A report leaves the sections empty that are switched off. -/
structure LeavesOut (o : Options) (report : Report) : Prop where
  unused : o.detectUnused = false → report.unused = []
  complexity : o.analyzeComplexity = false → report.complexity = []
  issues : o.detectIssues = false → report.issues = []
  hints : o.detectAmbiguity = false → report.hints = []
  dangling : o.detectDangling = false → report.dangling = []

/-- Thresholds of one canonical form give the same figures. -/
theorem complexity_congr (rules : List Rule) (g : Graph) (t t' : Thresholds)
    (high : t.high.canonical = t'.high.canonical)
    (critical : t.critical.canonical = t'.critical.canonical) :
    complexity rules g t = complexity rules g t' := by
  have hcanonical : t.canonical = t'.canonical := by
    unfold Thresholds.canonical
    rw [high, critical]
  rw [← complexity_canonical rules g t, hcanonical, complexity_canonical rules g t']

/-- Where the critical thresholds are the same number, so are the issues of a grammar, whatever the
high thresholds are. -/
theorem performanceIssues_congr (source : List Char) (t t' : Thresholds)
    (critical : t.critical.canonical = t'.critical.canonical) :
    performanceIssues (attachedRules source)
        (complexity (attachedRules source) (graphOf source) t) =
      performanceIssues (attachedRules source)
        (complexity (attachedRules source) (graphOf source) t') := by
  have hlevel : t.critical.level? = t'.critical.level? := by
    rw [← Number.level?_canonical t.critical, critical, Number.level?_canonical]
  have hissues : issuesByRule (attachedRules source)
        (complexity (attachedRules source) (graphOf source) t) =
      issuesByRule (attachedRules source)
        (complexity (attachedRules source) (graphOf source) t') := by
    rw [issuesByRule_of_source, issuesByRule_of_source]
    congr 1
    funext rule
    exact checkRule_congr (Number.le_congr_left hlevel)
  unfold performanceIssues
  rw [hissues]

/-- **Each option bears on its own sections only**: two reports on one grammar agree on every
section that no differing option bears on, and a section that is switched off is empty. -/
theorem sections_of_options (source : List Char) (o o' : Options) (timing timing' : Timing) :
    AgreeOnSections o o' (Report.of source o timing) (Report.of source o' timing') ∧
      LeavesOut o (Report.of source o timing) := by
  constructor
  · refine ⟨rfl, ?unused, ?complexity, ?issues, ?hints, ?dangling⟩
    case unused =>
      intro hswitch hstart
      show sectionIf o.detectUnused (unusedRules _ _ o.startRule) =
        sectionIf o'.detectUnused (unusedRules _ _ o'.startRule)
      rw [hswitch, hstart]
    case complexity =>
      intro hswitch hhigh hcritical
      show sectionIf o.analyzeComplexity (complexity _ _ o.thresholds) =
        sectionIf o'.analyzeComplexity (complexity _ _ o'.thresholds)
      rw [hswitch, complexity_congr _ _ o.thresholds o'.thresholds hhigh hcritical]
    case issues =>
      intro hswitch hcritical
      show sectionIf o.detectIssues (performanceIssues (attachedRules source)
          (complexity (attachedRules source) (graphOf source) o.thresholds)) =
        sectionIf o'.detectIssues (performanceIssues (attachedRules source)
          (complexity (attachedRules source) (graphOf source) o'.thresholds))
      rw [hswitch, performanceIssues_congr source o.thresholds o'.thresholds hcritical]
    case hints =>
      intro hswitch
      show sectionIf o.detectAmbiguity _ = sectionIf o'.detectAmbiguity _
      rw [hswitch]
    case dangling =>
      intro hswitch
      show sectionIf o.detectDangling _ = sectionIf o'.detectDangling _
      rw [hswitch]
  · have hoff {α : Type} {on : Bool} (findings : List α) (h : on = false) :
        sectionIf on findings = [] := by
      rw [h, sectionIf_false]
    exact ⟨hoff _, hoff _, hoff _, hoff _, hoff _⟩

end GrammarAudit
