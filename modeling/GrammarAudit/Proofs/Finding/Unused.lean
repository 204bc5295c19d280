import GrammarAudit.Proofs.Graph.Adjacency
import Mathlib.Data.List.Nodup

/-!
# Which rules are unused

The graph shows for each name the rules that mention it, and of the rules that nothing mentions the
ones are left out with which an analysis may start. Under distinct names this comes down to a
condition on each rule alone, and every rule that meets it is reported once.

- `IsUnused`: nothing mentions a rule, and an analysis does not start with it.
- `implicitStart?_eq_some_iff`: the first parser rule is known by its name.
- `isStart_iff`: the rules that an analysis starts with.
- `unusedRules_exact`: the unused rules of any rules with distinct names.
-/

namespace GrammarAudit

variable {rules : List Rule}

/-- Nothing mentions a rule, and an analysis does not start with it: neither is it configured as the
start rule, in whatever case, nor is it the first parser rule while none is configured. -/
structure IsUnused (rules : List Rule) (startRule : String) (rule : Rule) : Prop where
  unmentioned : ∀ other ∈ rules, rule.name ∉ other.references
  not_configured : Text.lower rule.name.toList ≠ Text.lower startRule.toList
  not_first : startRule ≠ "" ∨ rules.find? (fun other => other.kind = .parser) ≠ some rule

instance (rules : List Rule) (startRule : String) (rule : Rule) :
    Decidable (IsUnused rules startRule rule) :=
  decidable_of_iff
    ((∀ other ∈ rules, rule.name ∉ other.references) ∧
      Text.lower rule.name.toList ≠ Text.lower startRule.toList ∧
      (startRule ≠ "" ∨ rules.find? (fun other => other.kind = .parser) ≠ some rule))
    ⟨fun h => ⟨h.1, h.2.1, h.2.2⟩, fun h => ⟨h.unmentioned, h.not_configured, h.not_first⟩⟩

/-- Where no two rules have one name, the first parser rule is known by its name. -/
theorem implicitStart?_eq_some_iff (distinctNames : (rules.map RuleRecord.name).Nodup) {rule : Rule}
    (h : rule ∈ rules) : implicitStart? rules = some rule.name ↔
      rules.find? (fun other => other.kind = .parser) = some rule := by
  rw [implicitStart?, Option.map_eq_some_iff]
  constructor
  · rintro ⟨first, hfirst, hname⟩
    have hmem : first ∈ rules := List.mem_of_find?_eq_some hfirst
    rwa [← List.inj_on_of_nodup_map distinctNames hmem h hname]
  · intro hfirst
    exact ⟨rule, hfirst, rfl⟩

/-- An analysis starts with the configured rule, or with the first parser rule if there is none. -/
theorem isStart_iff (distinctNames : (rules.map RuleRecord.name).Nodup) {rule : Rule}
    (h : rule ∈ rules) {startRule : String} : isStart rules startRule rule.name ↔
      Text.lower rule.name.toList = Text.lower startRule.toList ∨
        startRule = "" ∧ rules.find? (fun other => other.kind = .parser) = some rule := by
  rw [isStart, Bool.or_eq_true, Bool.and_eq_true, sameUpToCase, decide_eq_true_eq,
    decide_eq_true_eq, decide_eq_true_eq, implicitStart?_eq_some_iff distinctNames h]

/-- A rule is picked out as unused if the graph has it for unmentioned and it is no start. -/
theorem isUnused_iff (distinctNames : (rules.map RuleRecord.name).Nodup) {rule : Rule}
    (h : rule ∈ rules) {startRule : String} : IsUnused rules startRule rule ↔
      ((Graph.ofRules rules).isUnmentioned rule.name &&
        !isStart rules startRule rule.name) = true := by
  have hname : rule.name ∈ rules.map RuleRecord.name := List.mem_map_of_mem h
  rw [Bool.and_eq_true, Bool.not_eq_true', ← Bool.not_eq_true, isStart_iff distinctNames h,
    Graph.isUnmentioned_ofRules_iff, and_iff_right hname, not_or, not_and_or]
  constructor
  · rintro ⟨unmentioned, configured, first⟩
    exact ⟨unmentioned, configured, first⟩
  · rintro ⟨unmentioned, configured, first⟩
    exact ⟨unmentioned, configured, first⟩

/-- **Unused rules are found exactly.** Of any rules with distinct names, the ones that are reported
against their own graph are those that no rule of the list mentions, itself included, and with which
an analysis does not start. They come in the order of the list, each once, with kind and place. -/
theorem unusedRules_exact (distinctNames : (rules.map RuleRecord.name).Nodup)
    (startRule : String) :
    let found := unusedRules rules (Graph.ofRules rules) startRule
    found = (rules.filter fun rule => IsUnused rules startRule rule).map Unused.ofRule ∧
      (found.map UnusedRecord.name).Nodup ∧
      ∀ rule ∈ rules,
        ((∃ u ∈ found, u.name = rule.name) ↔ IsUnused rules startRule rule) ∧
        ∀ u ∈ found, u.name = rule.name →
          u.kind = rule.kind ∧ u.line = rule.line ∧ u.column = rule.column := by
  intro found
  have hfound : found =
      (rules.filter fun rule => IsUnused rules startRule rule).map Unused.ofRule := by
    refine congrArg (List.map Unused.ofRule) (List.filter_congr fun rule hrule => ?_)
    rw [Bool.eq_iff_iff, decide_eq_true_eq]
    exact (isUnused_iff distinctNames hrule).symm
  -- a finding of the name of a rule is the one made from that rule
  have hown {rule : Rule} (hrule : rule ∈ rules) {u : Unused} (hu : u ∈ found)
      (hname : u.name = rule.name) : u = Unused.ofRule rule ∧ IsUnused rules startRule rule := by
    rw [hfound] at hu
    obtain ⟨other, hother, rfl⟩ := List.mem_map.mp hu
    obtain ⟨hmem, hunused⟩ := List.mem_filter.mp hother
    obtain rfl : other = rule := List.inj_on_of_nodup_map distinctNames hmem hrule hname
    exact ⟨rfl, of_decide_eq_true hunused⟩
  refine ⟨hfound, ?once, fun rule hrule => ⟨⟨?sound, ?complete⟩, ?fields⟩⟩
  case once =>
    rw [hfound, List.map_map]
    exact distinctNames.sublist (List.filter_sublist.map RuleRecord.name)
  case sound =>
    rintro ⟨u, hu, hname⟩
    exact (hown hrule hu hname).2
  case complete =>
    intro hunused
    refine ⟨Unused.ofRule rule, ?_, rfl⟩
    rw [hfound]
    exact List.mem_map_of_mem (List.mem_filter.mpr ⟨hrule, decide_eq_true hunused⟩)
  case fields =>
    intro u hu hname
    rw [(hown hrule hu hname).1]
    exact ⟨rfl, rfl, rfl⟩

/-- The start rule is found in another case. The parser rule before it is unused then, although it
is the first one, and a rule that only mentions itself is not. -/
theorem unusedRules_exact_configured :
    let rule (name : String) (kind : Kind) (references : List String) : Rule :=
      ⟨name, kind, 1, 0, 1, 5, "", 1, references, []⟩
    let rules := [rule "first" .parser ["missing"], rule "start" .parser [],
      rule "loop" .parser ["loop"], rule "DIGIT" .fragment []]
    (rules.map RuleRecord.name).Nodup ∧
      (unusedRules rules (Graph.ofRules rules) "START").map UnusedRecord.name =
        ["first", "DIGIT"] := by
  intro rule rules
  have hnames : (rules.map RuleRecord.name).Nodup := by decide
  refine ⟨hnames, ?_⟩
  rw [(unusedRules_exact hnames "START").1]
  decide +kernel

end GrammarAudit
