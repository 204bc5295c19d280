import GrammarAudit.Proofs.Finding.Grading
import GrammarAudit.Proofs.Graph.Adjacency
import GrammarAudit.Proofs.Graph.Reachability
import Mathlib.Data.List.Forall2

/-!
# Rules in another order

The graph of rules with distinct names depends on their order only in the order of its nodes and of
the rules that mention each. Paths, recursion and the figures of a rule do not depend on these, so
an analysis of the rules in another order finds the same.

- `Node.Alike`, `Graph.Alike`: nodes and graphs that differ in these orders only.
- `Graph.Alike.path_iff`, `Graph.Alike.isIndirect`, `Graph.Alike.ofRule`: what depends on neither
  order.
- `Graph.nodeOf_alike`, `Graph.alike_ofRules`: the graphs of two orders are alike.
- `AnalysedAlike`, `analysedAlike_of_perm`: what two orders of the rules have in common.
-/

namespace GrammarAudit

/-- Two nodes of one rule differ at most in the order of the rules that mention it. -/
structure Node.Alike (n n' : Node) : Prop where
  name : n.name = n'.name
  kind : n.kind = n'.kind
  references : n.references = n'.references
  referencedBy : n.referencedBy.Perm n'.referencedBy

namespace Graph

/-- Two graphs have alike nodes under each name. -/
def Alike (g g' : Graph) : Prop :=
  ∀ name, Option.Rel Node.Alike (g.node? name) (g'.node? name)

/-! ## What alike graphs have in common -/

variable {g g' : Graph}

/-- A name has no node in either graph, or alike nodes in both. -/
theorem Alike.node?_cases (h : g.Alike g') (name : String) :
    g.node? name = none ∧ g'.node? name = none ∨
      ∃ n n', g.node? name = some n ∧ g'.node? name = some n' ∧ n.Alike n' := by
  have hrel := h name
  generalize g.node? name = n at *
  generalize g'.node? name = n' at *
  cases hrel with
  | none => exact .inl ⟨rfl, rfl⟩
  | some halike => exact .inr ⟨_, _, rfl, rfl, halike⟩

/-- The same names are defined. -/
theorem Alike.defines (h : g.Alike g') (name : String) : g.defines name = g'.defines name := by
  unfold Graph.defines
  rcases h.node?_cases name with ⟨hn, hn'⟩ | ⟨n, n', hn, hn', -⟩
  · rw [hn, hn']
  · rw [hn, hn']
    rfl

/-- Every name mentions the same ones. -/
theorem Alike.referencesOf (h : g.Alike g') (name : String) :
    g.referencesOf name = g'.referencesOf name := by
  unfold Graph.referencesOf
  rcases h.node?_cases name with ⟨hn, hn'⟩ | ⟨n, n', hn, hn', halike⟩
  · rw [hn, hn']
  · rw [hn, hn']
    exact halike.references

/-- The same names are mentioned by no rule. -/
theorem Alike.isUnmentioned (h : g.Alike g') (name : String) :
    g.isUnmentioned name = g'.isUnmentioned name := by
  unfold Graph.isUnmentioned
  rcases h.node?_cases name with ⟨hn, hn'⟩ | ⟨n, n', hn, hn', halike⟩
  · rw [hn, hn']
  · rw [hn, hn']
    exact halike.referencedBy.isEmpty_eq

/-- The same names are directly recursive. -/
theorem Alike.isDirect (h : g.Alike g') (name : String) : g.isDirect name = g'.isDirect name := by
  rw [Graph.isDirect, Graph.isDirect, h.defines, h.referencesOf]

/-- A path depends on what is defined and on what is mentioned. -/
theorem Path.of_eq (hdefines : ∀ c, g.defines c = g'.defines c)
    (hreferences : ∀ c, g.referencesOf c = g'.referencesOf c) {a b : String} (h : g.Path a b) :
    g'.Path a b := by
  induction h with
  | step mentioned defined => exact .step (hreferences _ ▸ mentioned) (hdefines _ ▸ defined)
  | snoc _ mentioned defined ih =>
    exact .snoc ih (hreferences _ ▸ mentioned) (hdefines _ ▸ defined)

/-- Paths lead between the same names. -/
theorem Alike.path_iff (h : g.Alike g') {a b : String} : g.Path a b ↔ g'.Path a b :=
  ⟨.of_eq h.defines h.referencesOf,
    .of_eq (fun c => (h.defines c).symm) fun c => (h.referencesOf c).symm⟩

/-- The same names are indirectly recursive, although the search comes to them in another order. -/
theorem Alike.isIndirect (h : g.Alike g') (name : String) :
    g.isIndirect name = g'.isIndirect name := by
  rw [Bool.eq_iff_iff, isIndirect_iff, isIndirect_iff, h.defines, h.referencesOf]
  simp only [h.path_iff, h.referencesOf]

/-- Every rule has the same figures. -/
theorem Alike.ofRule (h : g.Alike g') (t : Thresholds) (rule : Rule) :
    Metrics.ofRule g t rule = Metrics.ofRule g' t rule := by
  simp only [Metrics.ofRule, h.referencesOf, h.isDirect, h.isIndirect]

/-! ## The graphs of two orders -/

section Order

variable {rules rules' : List Rule}

/-- Where names are distinct, the rule of a name is the same in any order. -/
theorem filter_name_eq_of_perm (perm : rules.Perm rules')
    (distinctNames : (rules.map RuleRecord.name).Nodup) (name : String) :
    (rules.filter fun rule => rule.name = name) = rules'.filter fun rule => rule.name = name := by
  have hperm := perm.filter fun rule => decide (rule.name = name)
  by_cases h : ∃ rule ∈ rules, rule.name = name
  · obtain ⟨rule, hrule, rfl⟩ := h
    rw [filter_name_eq_singleton distinctNames hrule] at hperm ⊢
    exact (List.perm_singleton.mp hperm.symm).symm
  · have hnone : (rules.filter fun rule => rule.name = name) = [] :=
      List.filter_eq_nil_iff.mpr fun rule hrule hname =>
        h ⟨rule, hrule, of_decide_eq_true hname⟩
    rw [hnone] at hperm ⊢
    exact hperm.nil_eq

/-- A name has alike nodes in the graphs of two orders. -/
theorem nodeOf_alike (perm : rules.Perm rules') (distinctNames : (rules.map RuleRecord.name).Nodup)
    (name : String) : (nodeOf rules name).Alike (nodeOf rules' name) := by
  have hown := filter_name_eq_of_perm perm distinctNames name
  refine ⟨rfl, ?_, ?_, distinct_perm ((perm.filter _).map RuleRecord.name)⟩
  · show ((rules.filter fun rule => rule.name = name).getLast?.map RuleRecord.kind).getD _ = _
    rw [hown]
    rfl
  · show distinct ((rules.filter fun rule => rule.name = name).flatMap _) = _
    rw [hown]
    rfl

/-- The graphs of two orders are alike. -/
theorem alike_ofRules (perm : rules.Perm rules')
    (distinctNames : (rules.map RuleRecord.name).Nodup) :
    (ofRules rules).Alike (ofRules rules') := by
  intro name
  have hnames : name ∈ rules.map RuleRecord.name ↔ name ∈ rules'.map RuleRecord.name :=
    (perm.map RuleRecord.name).mem_iff
  by_cases h : name ∈ rules.map RuleRecord.name
  · rw [node?_ofRules_eq_some_iff.mpr ⟨h, rfl⟩, node?_ofRules_eq_some_iff.mpr ⟨hnames.mp h, rfl⟩]
    exact .some (nodeOf_alike perm distinctNames name)
  · have hnone (node : Node) : (ofRules rules).node? name ≠ some node :=
      fun hnode => h (node?_ofRules_eq_some_iff.mp hnode).1
    have hnone' (node : Node) : (ofRules rules').node? name ≠ some node :=
      fun hnode => h (hnames.mpr (node?_ofRules_eq_some_iff.mp hnode).1)
    rw [Option.eq_none_iff_forall_ne_some.mpr hnone, Option.eq_none_iff_forall_ne_some.mpr hnone']
    exact .none

/-- The nodes are alike one by one, in the order that one of the graphs has them in. -/
theorem nodes_alike (perm : rules.Perm rules') (distinctNames : (rules.map RuleRecord.name).Nodup) :
    ∃ nodes, (ofRules rules).nodes.Perm nodes ∧
      List.Forall₂ Node.Alike nodes (ofRules rules').nodes := by
  refine ⟨_, (distinct_perm (perm.map RuleRecord.name)).map (nodeOf rules), ?_⟩
  rw [ofRules, List.forall₂_map_left_iff, List.forall₂_map_right_iff, List.forall₂_same]
  exact fun name _ => nodeOf_alike perm distinctNames name

end Order

end Graph

/-! ## What an analysis finds -/

/-- An analysis finds the same for two lists of rules: alike nodes, the same recursive names and
figures, and the same unused rules when a start rule is given. -/
structure AnalysedAlike (rules rules' : List Rule) (t : Thresholds) : Prop where
  nodes : ∃ nodes, (Graph.ofRules rules).nodes.Perm nodes ∧
    List.Forall₂ Node.Alike nodes (Graph.ofRules rules').nodes
  direct : ((Graph.ofRules rules).recursion rules).direct.Perm
    ((Graph.ofRules rules').recursion rules').direct
  indirect : ((Graph.ofRules rules).recursion rules).indirect.Perm
    ((Graph.ofRules rules').recursion rules').indirect
  complexity : (complexity rules (Graph.ofRules rules) t).Perm
    (complexity rules' (Graph.ofRules rules') t)
  overflows : complexityOverflows rules (Graph.ofRules rules) t =
    complexityOverflows rules' (Graph.ofRules rules') t
  unused : ∀ startRule, startRule ≠ "" →
    (unusedRules rules (Graph.ofRules rules) startRule).Perm
      (unusedRules rules' (Graph.ofRules rules') startRule)

variable {rules rules' : List Rule} {g g' : Graph}

/-- Alike graphs give the rules the same figures, in whatever order they come. -/
theorem complexity_perm_of_alike (alike : g.Alike g') (perm : rules.Perm rules') (t : Thresholds) :
    (complexity rules g t).Perm (complexity rules' g' t) := by
  have hfigures : Metrics.ofRule g t = Metrics.ofRule g' t := funext (alike.ofRule t)
  calc (complexity rules g t).Perm (rules.map (Metrics.ofRule g t)) := complexity_perm rules g t
    _ = rules.map (Metrics.ofRule g' t) := by rw [hfigures]
    List.Perm _ (rules'.map (Metrics.ofRule g' t)) := perm.map _
    List.Perm _ (complexity rules' g' t) := (complexity_perm rules' g' t).symm

/-- With a start rule that is given, no other rule counts as the start. -/
theorem isStart_eq_of_ne {startRule : String} (given : startRule ≠ "") (name : String) :
    isStart rules startRule name = sameUpToCase name startRule := by
  rw [isStart, decide_eq_false given, Bool.false_and, Bool.or_false]

/-- Alike graphs leave the same rules unused when a start rule is given. -/
theorem unusedRules_perm_of_alike (alike : g.Alike g') (perm : rules.Perm rules')
    {startRule : String} (given : startRule ≠ "") :
    (unusedRules rules g startRule).Perm (unusedRules rules' g' startRule) := by
  unfold unusedRules
  simp only [isStart_eq_of_ne given, alike.isUnmentioned]
  exact (perm.filter _).map Unused.ofRule

/-- **The order of the rules does not matter**: for rules with distinct names in any two orders, the
graphs have alike nodes, and an analysis finds the same recursive names, the same figures and, with
a start rule that is given, the same unused rules. -/
theorem analysedAlike_of_perm (perm : rules.Perm rules')
    (distinctNames : (rules.map RuleRecord.name).Nodup) (t : Thresholds) :
    AnalysedAlike rules rules' t := by
  have halike := Graph.alike_ofRules perm distinctNames
  have hnames := distinct_perm (perm.map RuleRecord.name)
  have hcomplexity := complexity_perm_of_alike halike perm t
  refine ⟨Graph.nodes_alike perm distinctNames, ?direct, ?indirect, hcomplexity,
    hcomplexity.any_eq, fun _ given => unusedRules_perm_of_alike halike perm given⟩
  case direct =>
    show (List.filter _ _).Perm (List.filter _ _)
    rw [funext halike.isDirect]
    exact hnames.filter _
  case indirect =>
    show (List.filter _ _).Perm (List.filter _ _)
    rw [funext halike.isIndirect]
    exact hnames.filter _

/-- Three rules, of which two lead to each other, are analysed alike backwards. -/
theorem analysedAlike_of_reverse :
    let rule (name : String) (references : List String) : Rule :=
      ⟨name, .parser, 1, 0, 1, 5, "", 1, references, []⟩
    let rules := [rule "a" ["b"], rule "b" ["a", "c"], rule "c" []]
    rules.Perm rules.reverse ∧ (rules.map RuleRecord.name).Nodup ∧
      AnalysedAlike rules rules.reverse ⟨.int 50, .int 100⟩ := by
  intro rule rules
  have hperm : rules.Perm rules.reverse := (List.reverse_perm rules).symm
  have hnames : (rules.map RuleRecord.name).Nodup := by decide
  exact ⟨hperm, hnames, analysedAlike_of_perm hperm hnames _⟩

end GrammarAudit
