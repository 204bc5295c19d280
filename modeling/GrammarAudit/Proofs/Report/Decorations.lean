import GrammarAudit.Proofs.Grammar.Coordinates
import GrammarAudit.Proofs.Report.Integrity
import GrammarAudit.Report.Decoration
import Mathlib.Data.List.Forall2

/-!
# Decorations show every finding

Figures and hints are projected by looking up their rule by name, and what is not found is left
out. In the report of an analysis nothing is left out: every finding is shown once, on the name of
its rule, and where that name is located in the source, the decorated columns read the name.

- `ShownFinding`, `Report.shownFindings`: the findings that an editor shows, kind by kind.
- `ShownFinding.ShownBy`: a decoration that shows a finding on the name of a rule.
- `columns_of_mem_attachedRules`: what the columns of a rule's name read.
- `shownBy_of_mem_shownFindings`: the decoration of a finding.
- `decorations_of_report`: the decorations of a report are those of its findings.
-/

namespace GrammarAudit

open Grammar Text

/-! ## Findings -/

/-- A finding that an editor shows. -/
inductive ShownFinding where
  | unused (u : Unused)
  | issue (i : Issue)
  | figures (m : Metrics)
  | hint (h : Hint)

/-- The findings of a report: unused rules, issues, figures with a high or critical grade, hints. -/
def Report.shownFindings (report : Report) : List ShownFinding :=
  report.unused.map .unused ++ report.issues.map .issue ++
    (report.complexity.filter fun m => m.grade.isHigh).map .figures ++ report.hints.map .hint

namespace ShownFinding

/-- The name of the rule that a finding is about. -/
def rule : ShownFinding → String
  | unused u => u.name
  | issue i => i.rule
  | figures m => m.name
  | hint h => h.rule

/-- The analysis that a finding comes from. -/
def source : ShownFinding → DecorationSource
  | unused _ => .unused
  | issue _ => .performance
  | figures _ => .complexity
  | hint _ => .ambiguity

/-- How severe a finding is shown to be. -/
def severity : ShownFinding → Severity
  | unused _ => .warning
  | issue i => i.severity
  | figures m => if m.grade = .critical then .error else .warning
  | hint _ => .info

/-- The hover text of a finding. -/
def message : ShownFinding → String
  | unused u => u.suggestion
  | issue i => i.issue ++ ": " ++ i.description ++ "\n\nSuggestion: " ++ i.suggestion
  | figures m => m.describe .ofReport
  | hint h => h.description

/-- A decoration shows a finding on the name of a rule: on the line of the rule alone, from its
column on, as many columns as the name has characters. If the name is located in the source, these
columns of that line read the name. -/
structure ShownBy (text : List Char) (finding : ShownFinding) (rule : Rule) (d : Decoration) :
    Prop where
  source_eq : d.source = finding.source
  severity_eq : d.severity = finding.severity
  message_eq : d.message = finding.message
  startLine_eq : d.startLine = rule.line
  endLine_eq : d.endLine = d.startLine
  startColumn_eq : d.startColumn = rule.column + 1
  width : d.endColumn - d.startColumn = rule.name.length
  reads : findDeclaration? text rule.name.toList ≠ none →
    ∃ line, line? text d.startLine = some line ∧
      (line.drop (d.startColumn - 1).toNat).take (d.endColumn - d.startColumn).toNat =
        rule.name.toList

end ShownFinding

/-! ## The columns of a name -/

variable {source : List Char} {rule : Rule}

/-- The rules of a grammar stand where they were found. -/
theorem exists_found_of_mem_attachedRules (h : rule ∈ attachedRules source) :
    ∃ found ∈ rulesOf source, rule.name = found.name ∧ rule.start = found.start := by
  obtain ⟨found, hfound, rfl⟩ := List.mem_map.mp h
  rw [Graph.attachOne_ofRules hfound]
  exact ⟨found, hfound, rfl, rfl⟩

/-- The name of a rule stands on one line. -/
theorem lineFeed_not_mem_name {cleaned : List Char} (h : rule ∈ extractRules source cleaned) :
    '\n' ∉ rule.name.toList := by
  obtain ⟨d, hrule, hfind⟩ := exists_definition_of_mem_extractRules h
  have hname : rule.name.toList = d.name := by
    rw [hrule]
    exact String.toList_ofList
  have hwell := wellFormed_of_mem_scanFrom (List.mem_of_find?_eq_some hfind)
  rw [hname]
  exact fun hmem => absurd (hwell.isName.2 '\n' hmem) (by decide)

/-- Where the name of a rule is located, its line reads the name from its column on. -/
theorem columns_of_mem_attachedRules (h : rule ∈ attachedRules source)
    (hlocated : findDeclaration? source rule.name.toList ≠ none) :
    ∃ line, line? source rule.line = some line ∧
      (line.drop rule.column.toNat).take rule.name.length = rule.name.toList := by
  obtain ⟨found, hfound, hname, hstart⟩ := exists_found_of_mem_attachedRules h
  rw [hname] at hlocated ⊢
  obtain ⟨offset, hfind⟩ := Option.ne_none_iff_exists'.mp hlocated
  have hplace : rule.start = place source offset := by
    rw [hstart, ← declarationSpan_start hfind, ← span_of_mem_extractRules hfound]
  obtain ⟨-, gap, after, -, hdrop⟩ := (findDeclaration?_eq_some_iff.mp hfind).1
  have hinside := congrArg List.length hdrop
  simp only [List.length_drop, List.length_append, List.length_cons] at hinside
  have hline : rule.line = lineOf source offset := congrArg Place.line hplace
  have hcolumn : rule.column = columnOf source offset := congrArg Place.column hplace
  rw [hline, hcolumn, ← String.length_toList]
  exact cut_line (lineFeed_not_mem_name hfound) hdrop (by omega)

/-! ## The decoration of a finding -/

/-- The mark of a finding, if its rule is listed. -/
def ShownFinding.mark? (report : Report) : ShownFinding → Option (Mark String Int)
  | unused u => some u.mark
  | issue i => some (i.mark .ofReport)
  | figures m => m.mark? .ofReport report
  | hint h => h.mark? report

/-- The decoration of a mark: the columns from one on that its name covers. -/
def Mark.decoration (m : Mark String Int) : Decoration :=
  ⟨m.line, m.column + 1, m.line, m.column + m.name.length + 1, m.severity, m.message, m.source⟩

/-- Every mark has a decoration, so the decorations of a report are those of the marks that its
findings have. -/
theorem decorations?_eq (report : Report) :
    report.decorations? .ofReport =
      some (report.shownFindings.filterMap fun f => (f.mark? report).map Mark.decoration) := by
  have hfigures : (report.complexity.filter fun m => m.grade.isHigh).filterMap
      (MetricsRecord.mark? .ofReport report) =
        report.complexity.filterMap (MetricsRecord.mark? .ofReport report) := by
    rw [List.filterMap_filter]
    congr 1
    funext m
    unfold MetricsRecord.mark?
    split <;> rfl
  have hmarks : report.marks .ofReport =
      report.shownFindings.filterMap (ShownFinding.mark? report) := by
    simp only [ReportRecord.marks, Report.shownFindings, List.filterMap_append, List.filterMap_map]
    rw [← hfigures, ← List.filterMap_eq_map, ← List.filterMap_eq_map]
    rfl
  rw [ReportRecord.decorations?, hmarks, ← List.map_filterMap]
  exact List.mapM_pure

/-- A mark on the name of a rule is a decoration that shows its finding. -/
theorem shownBy_decoration {finding : ShownFinding} (h : rule ∈ attachedRules source) :
    finding.ShownBy source rule (Mark.decoration
      ⟨rule.line, rule.column, rule.name, finding.severity, finding.message, finding.source⟩) := by
  have hwidth : rule.column + rule.name.length + 1 - (rule.column + 1) = rule.name.length := by
    omega
  refine ⟨rfl, rfl, rfl, rfl, rfl, rfl, hwidth, fun hlocated => ?_⟩
  obtain ⟨line, hline, hcut⟩ := columns_of_mem_attachedRules h hlocated
  refine ⟨line, hline, ?_⟩
  show (line.drop (rule.column + 1 - 1).toNat).take
    (rule.column + rule.name.length + 1 - (rule.column + 1)).toNat = _
  rw [hwidth, Int.add_sub_cancel, Int.toNat_natCast]
  exact hcut

/-- The rule of a name is looked up among the rules of a report. -/
theorem rule?_of_mem {report : Report} (hrules : report.rules = attachedRules source)
    (h : rule ∈ attachedRules source) : report.rule? rule.name = some rule := by
  have hone := filter_name_eq_singleton (nodup_names_attachedRules source) h
  rw [ReportRecord.rule?, hrules, ← List.head?_filter, hone]
  rfl

/-- **Every finding of a report is shown** on the name of the rule that it is about. -/
theorem shownBy_of_mem_shownFindings {o : Options} {timing : Timing} {finding : ShownFinding}
    (h : finding ∈ (Report.of source o timing).shownFindings) :
    ∃ d, (finding.mark? (Report.of source o timing)).map Mark.decoration = some d ∧
      IsAbout (attachedRules source) finding.rule fun rule => finding.ShownBy source rule d := by
  have hnodup := nodup_names_attachedRules source
  unfold Report.shownFindings at h
  simp only [List.mem_append, List.mem_map, List.mem_filter] at h
  rcases h with ((⟨u, hu, rfl⟩ | ⟨i, hi, rfl⟩) | ⟨m, ⟨hm, hhigh⟩, rfl⟩) | ⟨hint, hh, rfl⟩
  · obtain ⟨rule, hrule, rfl⟩ := mem_unusedRules (mem_sectionIf_iff.mp hu).2
    exact ⟨_, rfl, isAbout_of_mem hnodup hrule (shownBy_decoration hrule)⟩
  · obtain ⟨rule, hrule, check, m, rfl⟩ :=
      mem_issuesByRule (mem_performanceIssues_iff.mp (mem_sectionIf_iff.mp hi).2)
    exact ⟨_, rfl, isAbout_of_mem hnodup hrule (shownBy_decoration hrule)⟩
  · obtain ⟨rule, hrule, rfl⟩ := mem_complexity_iff.mp (mem_sectionIf_iff.mp hm).2
    refine ⟨_, ?_, isAbout_of_mem hnodup hrule (shownBy_decoration hrule)⟩
    show (MetricsRecord.mark? .ofReport _ _).map Mark.decoration = _
    rw [MetricsRecord.mark?, if_pos hhigh]
    show ((ReportRecord.rule? _ rule.name).map _).map Mark.decoration = _
    rw [rule?_of_mem rfl hrule]
    rfl
  · -- a hint stands on its own line, which is that of its rule
    obtain ⟨rule, hrule, hname, hline⟩ := mem_ambiguityHints (mem_sectionIf_iff.mp hh).2
    have hshown : (ShownFinding.hint hint).ShownBy source rule _ := shownBy_decoration hrule
    refine ⟨_, ?_, rule, by rw [← filter_name_eq_singleton hnodup hrule, ← hname]; rfl, hshown⟩
    show (HintRecord.mark? _ hint).map Mark.decoration = _
    rw [HintRecord.mark?, hname, rule?_of_mem rfl hrule, hline]
    rfl

/-! ## The decorations of a report -/

/-- A list of which every entry has an image is carried over entry by entry. -/
theorem forall₂_filterMap {α β : Type} {f : α → Option β} {R : α → β → Prop} {l : List α}
    (h : ∀ a ∈ l, ∃ b, f a = some b ∧ R a b) : List.Forall₂ R l (l.filterMap f) := by
  induction l with
  | nil => exact .nil
  | cons a l ih =>
    obtain ⟨b, hb, hab⟩ := h a List.mem_cons_self
    rw [List.filterMap_cons_some hb]
    exact .cons hab (ih fun a ha => h a (List.mem_cons_of_mem _ ha))

/-- The summary of a report counts its findings. -/
theorem length_shownFindings (source : List Char) (o : Options) (timing : Timing) :
    let report := Report.of source o timing
    (report.shownFindings.length : Int) = report.summary.unusedRules +
      report.summary.performanceIssues + report.summary.highComplexityRules +
        report.summary.ambiguityHints := by
  intro report
  simp only [Report.shownFindings, List.length_append, List.length_map,
    ← List.countP_eq_length_filter]
  rfl

/-- **No finding is left out of the decorations**: a report has as many decorations as its summary
counts unused rules, issues, rules of high complexity and hints. They show its findings one by one,
kind by kind and each kind in the order of the report, and each finding on the name of the one rule
that it is about. -/
theorem decorations_of_report (source : List Char) (o : Options) (timing : Timing) :
    let report := Report.of source o timing
    ∃ decorations, report.decorations? .ofReport = some decorations ∧
      (decorations.length : Int) = report.summary.unusedRules + report.summary.performanceIssues +
        report.summary.highComplexityRules + report.summary.ambiguityHints ∧
      List.Forall₂ (fun finding d => IsAbout report.rules finding.rule fun rule =>
        finding.ShownBy source rule d) report.shownFindings decorations := by
  intro report
  have hshown : List.Forall₂ _ report.shownFindings _ :=
    forall₂_filterMap fun _ h => shownBy_of_mem_shownFindings h
  refine ⟨_, decorations?_eq report, ?_, hshown⟩
  rw [← hshown.length_eq]
  exact length_shownFindings source o timing

end GrammarAudit
