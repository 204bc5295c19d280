import GrammarAudit.Proofs.Report.Sections
import Mathlib.Data.List.Nodup

/-!
# Integrity of reports

A report is a list of rules with findings that refer to them by name. The findings are made from the
rules as they were found, from the graph and from the rules with their neighbours; still every
finding of every section is about exactly one rule of the report, and carries the kind and the place
of that rule.

- `IsAbout`: a name is that of exactly one rule in a list, and that rule fits.
- `mem_unusedRules`, `mem_issuesByRule`, `mem_ambiguityHints`, `mem_dangling_iff`: which rule a
  finding was made from.
- `nodup_dangling`: no mention of an undefined name is listed twice.
- `Integral`: what holds the sections of a report together.
- `integral_report`: every report is integral.
-/

namespace GrammarAudit

open Grammar

/-! ## The rule that a finding is about -/

/-- The name is that of exactly one of the rules, and that rule is as it should be. -/
def IsAbout (rules : List Rule) (name : String) (fits : Rule → Prop) : Prop :=
  ∃ rule, (rules.filter fun other => other.name = name) = [rule] ∧ fits rule

variable {rules : List Rule}

theorem isAbout_of_mem (distinctNames : (rules.map RuleRecord.name).Nodup) {rule : Rule}
    (h : rule ∈ rules) {fits : Rule → Prop} (hfits : fits rule) : IsAbout rules rule.name fits :=
  ⟨rule, filter_name_eq_singleton distinctNames h, hfits⟩

/-! ## Where findings come from -/

theorem mem_unusedRules {g : Graph} {startRule : String} {u : Unused}
    (h : u ∈ unusedRules rules g startRule) : ∃ rule ∈ rules, u = Unused.ofRule rule := by
  obtain ⟨rule, hrule, rfl⟩ := List.mem_map.mp h
  exact ⟨rule, (List.mem_filter.mp hrule).1, rfl⟩

theorem mem_issuesByRule {metrics : List Metrics} {i : Issue} (h : i ∈ issuesByRule rules metrics) :
    ∃ rule ∈ rules, ∃ check m, i = Check.report check rule m := by
  obtain ⟨rule, hrule, hissue⟩ := List.mem_flatMap.mp h
  cases hmetrics : lastMetrics? metrics rule.name with
  | none =>
    rw [hmetrics] at hissue
    cases hissue
  | some m =>
    rw [hmetrics] at hissue
    obtain ⟨check, -, rfl⟩ := List.mem_map.mp hissue
    exact ⟨rule, hrule, check, m, rfl⟩

theorem mem_ambiguityHints {hint : Hint} (h : hint ∈ ambiguityHints rules) :
    ∃ rule ∈ rules, hint.rule = rule.name ∧ hint.line = rule.line := by
  obtain ⟨rule, hrule, hhint⟩ := List.mem_flatMap.mp h
  unfold hintsOf at hhint
  split at hhint
  · obtain ⟨⟨token, positions⟩, -, rfl⟩ := List.mem_map.mp hhint
    exact ⟨rule, hrule, rfl, rfl⟩
  · cases hhint

theorem mem_dangling_iff {g : Graph} {d : Dangling} :
    d ∈ g.dangling rules ↔ ∃ rule ∈ rules, ∃ name ∈ symbolReferences rule.text.toList,
      g.defines name = false ∧ d = ⟨rule.name, name, rule.line, rule.column⟩ := by
  simp only [Graph.dangling, List.mem_flatMap, List.mem_map, List.mem_filter, Bool.not_eq_true']
  constructor
  · rintro ⟨rule, hrule, name, ⟨hname, hundefined⟩, rfl⟩
    exact ⟨rule, hrule, name, hname, hundefined, rfl⟩
  · rintro ⟨rule, hrule, name, hname, hundefined, rfl⟩
    exact ⟨rule, hrule, name, ⟨hname, hundefined⟩, rfl⟩

/-- The names that a body mentions are listed once each. -/
theorem nodup_symbolReferences (ruleText : List Char) : (symbolReferences ruleText).Nodup := by
  unfold symbolReferences
  split
  · exact List.nodup_nil
  · exact nodup_distinct _

/-- No mention of an undefined name is listed twice. -/
theorem nodup_dangling (g : Graph) (distinctNames : (rules.map RuleRecord.name).Nodup) :
    ((g.dangling rules).map fun d => (d.rule, d.name)).Nodup := by
  have hpairs : (g.dangling rules).map (fun d => (d.rule, d.name)) =
      rules.flatMap fun rule => ((symbolReferences rule.text.toList).filter fun name =>
        !g.defines name).map fun name => (rule.name, name) := by
    rw [Graph.dangling, List.map_flatMap]
    simp only [List.map_map]
    rfl
  rw [hpairs, List.nodup_flatMap]
  constructor
  · intro rule _
    have hnames := (nodup_symbolReferences rule.text.toList).filter fun name => !g.defines name
    exact hnames.map fun _ _ h => (Prod.mk.inj h).2
  · -- pairs of two rules differ in the names of these
    refine (List.pairwise_map.mp distinctNames).imp fun hne => ?_
    intro pair hpair hpair'
    obtain ⟨_, -, rfl⟩ := List.mem_map.mp hpair
    obtain ⟨_, -, heq⟩ := List.mem_map.mp hpair'
    exact hne (Prod.mk.inj heq).1.symm

/-! ## Reports -/

/-- The rules of a report have distinct names, and every name in a section is that of exactly one
rule, whose kind and place the finding carries. Reported figures are those of each rule once;
undefined names are no names of rules, and are listed once for each rule. -/
structure Integral (o : Options) (report : Report) : Prop where
  names_nodup : (report.rules.map RuleRecord.name).Nodup
  referencedBy : ∀ rule ∈ report.rules, ∀ name ∈ rule.referencedBy,
    IsAbout report.rules name fun _ => True
  unused : ∀ u ∈ report.unused, IsAbout report.rules u.name fun rule =>
    u.kind = rule.kind ∧ u.line = rule.line ∧ u.column = rule.column
  complexity : ∀ m ∈ report.complexity, IsAbout report.rules m.name fun rule =>
    m.kind = rule.kind ∧ m.line = rule.line
  complexity_perm : o.analyzeComplexity = true →
    (report.complexity.map MetricsRecord.name).Perm (report.rules.map RuleRecord.name)
  issues : ∀ i ∈ report.issues, IsAbout report.rules i.rule fun rule =>
    i.kind = rule.kind ∧ i.line = rule.line ∧ i.column = rule.column
  hints : ∀ h ∈ report.hints, IsAbout report.rules h.rule fun rule => h.line = rule.line
  dangling : ∀ d ∈ report.dangling, IsAbout report.rules d.rule fun rule =>
    d.line = rule.line ∧ d.column = rule.column
  dangling_undefined : ∀ d ∈ report.dangling, d.name ∉ report.rules.map RuleRecord.name
  dangling_nodup : (report.dangling.map fun d => (d.rule, d.name)).Nodup

/-- The graph of a grammar defines the names of its rules. -/
theorem defines_graphOf {source : List Char} {name : String}
    (h : name ∈ (attachedRules source).map RuleRecord.name) :
    (graphOf source).defines name = true := by
  have hname : name ∈ (rulesOf source).map RuleRecord.name := by
    rw [← Graph.map_name_attach (graphOf source)]
    exact h
  have hnode : (graphOf source).node? name = some (Graph.nodeOf (rulesOf source) name) :=
    Graph.node?_ofRules_eq_some_iff.mpr ⟨hname, rfl⟩
  rw [Graph.defines, hnode]
  rfl

/-- What mentions a rule of a grammar is a rule of the grammar. -/
theorem mem_names_of_mem_referencedBy {source : List Char} {rule : Rule}
    (hrule : rule ∈ attachedRules source) {name : String} (h : name ∈ rule.referencedBy) :
    ∃ other ∈ attachedRules source, other.name = name := by
  obtain ⟨found, -, -, -, -, hreferencedBy⟩ := Graph.mem_attach_ofRules hrule
  rw [hreferencedBy, Graph.mem_referencedBy_nodeOf_iff] at h
  obtain ⟨other, hother, hname, -⟩ := h
  have hnames : name ∈ (attachedRules source).map RuleRecord.name := by
    show name ∈ ((graphOf source).attach (rulesOf source)).map RuleRecord.name
    rw [Graph.map_name_attach]
    exact List.mem_map.mpr ⟨other, hother, hname⟩
  exact List.mem_map.mp hnames

/-- **Every report is integral**, whatever the source and the options are. -/
theorem integral_report (source : List Char) (o : Options) (timing : Timing) :
    Integral o (Report.of source o timing) := by
  have hnodup := nodup_names_attachedRules source
  refine ⟨hnodup, ?referencedBy, ?unused, ?complexity, ?perm, ?issues, ?hints, ?dangling,
    ?undefined, ?once⟩
  case referencedBy =>
    intro rule hrule name hname
    obtain ⟨other, hother, rfl⟩ := mem_names_of_mem_referencedBy hrule hname
    exact isAbout_of_mem hnodup hother trivial
  case unused =>
    intro u hu
    obtain ⟨rule, hrule, rfl⟩ := mem_unusedRules (mem_sectionIf_iff.mp hu).2
    exact isAbout_of_mem hnodup hrule ⟨rfl, rfl, rfl⟩
  case complexity =>
    intro m hm
    obtain ⟨rule, hrule, rfl⟩ := mem_complexity_iff.mp (mem_sectionIf_iff.mp hm).2
    exact isAbout_of_mem hnodup hrule ⟨rfl, rfl⟩
  case perm =>
    intro hon
    show ((sectionIf o.analyzeComplexity _).map MetricsRecord.name).Perm _
    rw [hon, sectionIf_true]
    have hperm := (complexity_perm (attachedRules source) (graphOf source) o.thresholds).map
      MetricsRecord.name
    rw [List.map_map] at hperm
    exact hperm
  case issues =>
    intro i hi
    obtain ⟨rule, hrule, check, m, rfl⟩ :=
      mem_issuesByRule (mem_performanceIssues_iff.mp (mem_sectionIf_iff.mp hi).2)
    exact isAbout_of_mem hnodup hrule ⟨rfl, rfl, rfl⟩
  case hints =>
    intro h hh
    obtain ⟨rule, hrule, hname, hline⟩ := mem_ambiguityHints (mem_sectionIf_iff.mp hh).2
    rw [hname]
    exact isAbout_of_mem hnodup hrule hline
  case dangling =>
    intro d hd
    obtain ⟨rule, hrule, name, -, -, rfl⟩ := mem_dangling_iff.mp (mem_sectionIf_iff.mp hd).2
    exact isAbout_of_mem hnodup hrule ⟨rfl, rfl⟩
  case undefined =>
    intro d hd hname
    obtain ⟨rule, -, name, -, hundefined, rfl⟩ :=
      mem_dangling_iff.mp (mem_sectionIf_iff.mp hd).2
    have hdefined := defines_graphOf hname
    exact Bool.false_ne_true (hundefined.symm.trans hdefined)
  case once =>
    show ((sectionIf o.detectDangling _).map _).Nodup
    cases o.detectDangling with
    | true => exact nodup_dangling _ hnodup
    | false => exact List.nodup_nil

end GrammarAudit
