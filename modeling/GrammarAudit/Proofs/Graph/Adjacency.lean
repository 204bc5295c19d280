import GrammarAudit.Finding.Unused
import GrammarAudit.Graph.Basic
import GrammarAudit.Proofs.Distinct

/-!
# Neighbours in the reference graph

The graph of a list of rules has one node for each name, and its two lists of neighbours are read
off the mentions of the rules of that name. A mention of a defined name shows at both ends.

- `filter_name_eq_singleton`: where names are distinct, a rule is the only one of its name.
- `Graph.node?_ofRules_eq_some_iff`: the nodes of the graph.
- `mem_references_nodeOf_iff`, `mem_referencedBy_nodeOf_iff`: the neighbours of a node.
- `Graph.mem_attach_ofRules`: the rules with their neighbours.
- `mem_references_iff_mem_referencedBy`: the two directions are dual.
- `Graph.isUnmentioned_ofRules_iff`: the names that the graph has for unmentioned.
- `not_mem_references_of_unused`: nothing mentions an unused rule.
-/

namespace GrammarAudit

variable {rules : List Rule}

/-- Where no two rules have one name, a rule is the only one of its name. -/
theorem filter_name_eq_singleton (distinctNames : (rules.map RuleRecord.name).Nodup) {rule : Rule}
    (h : rule ∈ rules) : (rules.filter fun other => other.name = rule.name) = [rule] := by
  induction rules with
  | nil => cases h
  | cons first rules ih =>
    rw [List.map_cons, List.nodup_cons] at distinctNames
    obtain ⟨hfirst, hrest⟩ := distinctNames
    rcases List.mem_cons.mp h with rfl | h
    · have hnone : (rules.filter fun other => other.name = rule.name) = [] := by
        rw [List.filter_eq_nil_iff]
        intro other hother hname
        exact hfirst (List.mem_map.mpr ⟨other, hother, of_decide_eq_true hname⟩)
      rw [List.filter_cons_of_pos (by simp), hnone]
    · have hne : first.name ≠ rule.name := by
        intro hname
        exact hfirst (List.mem_map.mpr ⟨rule, h, hname.symm⟩)
      rw [List.filter_cons_of_neg (by simpa using hne), ih hrest h]

namespace Graph

theorem find?_eq_of_mem {l : List String} {name : String} (h : name ∈ l) :
    l.find? (fun other => other = name) = some name := by
  induction l with
  | nil => cases h
  | cons other l ih =>
    by_cases heq : other = name
    · rw [List.find?_cons_of_pos (by simpa using heq), heq]
    · rw [List.find?_cons_of_neg (by simpa using heq)]
      rcases List.mem_cons.mp h with hname | h
      · exact absurd hname.symm heq
      · exact ih h

/-- The graph has one node for each name of a rule. -/
theorem node?_ofRules_eq_some_iff {name : String} {node : Node} :
    (ofRules rules).node? name = some node ↔
      name ∈ rules.map RuleRecord.name ∧ node = nodeOf rules name := by
  have hfind : (ofRules rules).node? name =
      ((distinct (rules.map RuleRecord.name)).find? fun other => other = name).map
        (nodeOf rules) := by
    rw [node?, ofRules, List.find?_map]
    rfl
  rw [hfind]
  constructor
  · intro h
    obtain ⟨other, hother, rfl⟩ := Option.map_eq_some_iff.mp h
    have heq : other = name := by simpa using List.find?_some hother
    subst heq
    exact ⟨mem_distinct.mp (List.mem_of_find?_eq_some hother), rfl⟩
  · rintro ⟨hmem, rfl⟩
    rw [find?_eq_of_mem (mem_distinct.mpr hmem)]
    rfl

/-- A name mentions what the rules of that name mention. -/
theorem mem_references_nodeOf_iff {x y : String} :
    y ∈ (nodeOf rules x).references ↔ ∃ rule ∈ rules, rule.name = x ∧ y ∈ rule.references := by
  simp only [nodeOf, mem_distinct, List.mem_flatMap, List.mem_filter, decide_eq_true_eq, and_assoc]

/-- A name is mentioned by the rules that mention it. -/
theorem mem_referencedBy_nodeOf_iff {x y : String} :
    x ∈ (nodeOf rules y).referencedBy ↔ ∃ rule ∈ rules, rule.name = x ∧ y ∈ rule.references := by
  simp only [nodeOf, mem_distinct, List.mem_map, List.mem_filter, decide_eq_true_eq]
  constructor
  · rintro ⟨rule, ⟨hrule, hy⟩, hx⟩
    exact ⟨rule, hrule, hx, hy⟩
  · rintro ⟨rule, hrule, hx, hy⟩
    exact ⟨rule, ⟨hrule, hy⟩, hx⟩

/-- A rule of the list gets the neighbours of its node. -/
theorem attachOne_ofRules {rule : Rule} (h : rule ∈ rules) :
    (ofRules rules).attachOne rule =
      { rule with
        references := (nodeOf rules rule.name).references
        referencedBy := (nodeOf rules rule.name).referencedBy } := by
  have hnode : (ofRules rules).node? rule.name = some (nodeOf rules rule.name) :=
    node?_ofRules_eq_some_iff.mpr ⟨List.mem_map_of_mem h, rfl⟩
  rw [attachOne, hnode]

/-- The rules with their neighbours: name and text are those of a rule of the list. -/
theorem mem_attach_ofRules {rule : Rule} (h : rule ∈ (ofRules rules).attach rules) :
    ∃ found ∈ rules, rule.name = found.name ∧ rule.text = found.text ∧
      rule.references = (nodeOf rules found.name).references ∧
      rule.referencedBy = (nodeOf rules found.name).referencedBy := by
  obtain ⟨found, hfound, rfl⟩ := List.mem_map.mp h
  rw [attachOne_ofRules hfound]
  exact ⟨found, hfound, rfl, rfl, rfl, rfl⟩

/-- **The two directions are dual**: a rule mentions another one exactly if that one lists it. -/
theorem mem_references_iff_mem_referencedBy {a b : Rule} (ha : a ∈ (ofRules rules).attach rules)
    (hb : b ∈ (ofRules rules).attach rules) :
    b.name ∈ a.references ↔ a.name ∈ b.referencedBy := by
  obtain ⟨found, -, hname, -, hrefs, -⟩ := mem_attach_ofRules ha
  obtain ⟨found', -, hname', -, -, hrefs'⟩ := mem_attach_ofRules hb
  rw [hrefs, hrefs', hname, hname', mem_references_nodeOf_iff, mem_referencedBy_nodeOf_iff]

/-- What a rule of the list mentions it still mentions with the neighbours of its node. -/
theorem mem_references_of_found {a found : Rule} {name : String} (hfound : found ∈ rules)
    (hrefs : a.references = (nodeOf rules found.name).references)
    (h : name ∈ found.references) : name ∈ a.references := by
  rw [hrefs, mem_references_nodeOf_iff]
  exact ⟨found, hfound, rfl, h⟩

end Graph

/-- No rule mentions a defined name that is unmentioned in the graph. -/
theorem Graph.isUnmentioned_ofRules_iff {name : String} :
    (Graph.ofRules rules).isUnmentioned name ↔
      name ∈ rules.map RuleRecord.name ∧ ∀ rule ∈ rules, name ∉ rule.references := by
  by_cases hname : name ∈ rules.map RuleRecord.name
  · have hnode : (Graph.ofRules rules).node? name = some (Graph.nodeOf rules name) :=
      Graph.node?_ofRules_eq_some_iff.mpr ⟨hname, rfl⟩
    rw [Graph.isUnmentioned, hnode]
    dsimp only
    rw [List.isEmpty_iff, and_iff_right hname, List.eq_nil_iff_forall_not_mem]
    constructor
    · intro hnone rule hrule hmention
      exact hnone rule.name (Graph.mem_referencedBy_nodeOf_iff.mpr ⟨rule, hrule, rfl, hmention⟩)
    · intro hnone x hx
      obtain ⟨rule, hrule, -, hmention⟩ := Graph.mem_referencedBy_nodeOf_iff.mp hx
      exact hnone rule hrule hmention
  · refine iff_of_false (fun h => ?_) fun h => hname h.1
    unfold Graph.isUnmentioned at h
    split at h
    · next hnode => exact hname (Graph.node?_ofRules_eq_some_iff.mp hnode).1
    · cases h

/-- Nothing mentions an unused rule. -/
theorem not_mem_references_of_unused {rules : List Rule} {startRule : String} {u : Unused}
    (hu : u ∈ unusedRules ((Graph.ofRules rules).attach rules) (Graph.ofRules rules) startRule)
    {a : Rule} (ha : a ∈ (Graph.ofRules rules).attach rules) : u.name ∉ a.references := by
  obtain ⟨rule, hrule, rfl⟩ := List.mem_map.mp hu
  have hunmentioned := (Bool.and_eq_true_iff.mp (List.mem_filter.mp hrule).2).1
  obtain ⟨found, -, -, -, hrefs, -⟩ := Graph.mem_attach_ofRules ha
  intro hname
  rw [hrefs, Graph.mem_references_nodeOf_iff] at hname
  obtain ⟨other, hother, -, hmention⟩ := hname
  exact (Graph.isUnmentioned_ofRules_iff.mp hunmentioned).2 other hother hmention

end GrammarAudit
