import GrammarAudit.Proofs.Graph.Adjacency

/-!
# Forward and backward neighbours

The neighbours of a graph can be filled in mention by mention: each one is written down at the rule
that makes it and, where the name is defined, at the rule of that name. What is filled in this way
are the nodes of the graph, and the two ends of every mention of a defined name show it.

- `Adjacency`, `Adjacency.record`, `Adjacency.fill`: the two maps and the filling of them.
- `Adjacency.Holds.record`, `Adjacency.holds_fill`: what the maps hold after one mention and after
  all of them.
- `fill_forward_eq`, `fill_backward_eq`: the maps hold the neighbours of the nodes.
- `referencedBy_pairwise`: the rules that mention a name come in the order of first mention.
- `Mirrors`, `mirrors_ofRules`: keys, neighbours and their order in the graph of any rules.
-/

namespace GrammarAudit

namespace Graph

/-! ## Filling the two maps -/

/-- The names that each name mentions, and the names that mention it, each without repeats. -/
structure Adjacency where
  forward : String → List String
  backward : String → List String

/-- A list with a name at its end, unless it has the name already. -/
def appendNew (l : List String) (name : String) : List String :=
  if name ∈ l then l else l ++ [name]

/-- The mentions of a list of rules in order, each as the name of the rule that makes it and the
name it mentions. -/
def mentions (rules : List Rule) : List (String × String) :=
  rules.flatMap fun rule => rule.references.map fun name => (rule.name, name)

namespace Adjacency

/-- Writes a mention down: always at the name that makes it, and at the mentioned name if that is
defined. -/
def record (defined : List String) (a : Adjacency) (mention : String × String) : Adjacency where
  forward x := if x = mention.1 then appendNew (a.forward x) mention.2 else a.forward x
  backward y :=
    if y = mention.2 ∧ y ∈ defined then appendNew (a.backward y) mention.1 else a.backward y

/-- The maps after all mentions of the rules, rule by rule. -/
def fill (rules : List Rule) : Adjacency :=
  rules.foldl
    (fun a rule => rule.references.foldl
      (fun a name => a.record (rules.map RuleRecord.name) (rule.name, name)) a)
    ⟨fun _ => [], fun _ => []⟩

/-- The maps hold the distinct ends of the mentions, backwards only for defined names. -/
structure Holds (defined : List String) (seen : List (String × String)) (a : Adjacency) :
    Prop where
  forward_eq : ∀ x, a.forward x = distinct ((seen.filter fun m => m.1 = x).map Prod.snd)
  backward_eq : ∀ y, a.backward y =
    if y ∈ defined then distinct ((seen.filter fun m => m.2 = y).map Prod.fst) else []

/-- One more mention is held after it has been written down. -/
theorem Holds.record {defined : List String} {seen : List (String × String)} {a : Adjacency}
    (h : Holds defined seen a) (mention : String × String) :
    Holds defined (seen ++ [mention]) (a.record defined mention) := by
  obtain ⟨source, target⟩ := mention
  constructor
  · intro x
    show (if x = source then appendNew (a.forward x) target else a.forward x) = _
    rw [h.forward_eq, List.filter_append]
    by_cases hx : source = x
    · subst hx
      rw [if_pos rfl, List.filter_cons_of_pos (by simp), List.map_append, List.filter_nil,
        List.map_singleton, distinct_concat]
      rfl
    · rw [if_neg (Ne.symm hx), List.filter_cons_of_neg (by simpa using hx), List.filter_nil,
        List.append_nil]
  · intro y
    show (if y = target ∧ y ∈ defined then appendNew (a.backward y) source else a.backward y) = _
    rw [h.backward_eq, List.filter_append]
    by_cases hdefined : y ∈ defined
    · by_cases hy : target = y
      · subst hy
        rw [if_pos ⟨rfl, hdefined⟩, if_pos hdefined, if_pos hdefined,
          List.filter_cons_of_pos (by simp), List.map_append, List.filter_nil, List.map_singleton,
          distinct_concat]
        rfl
      · rw [if_neg (fun hand => hy hand.1.symm), List.filter_cons_of_neg (by simpa using hy),
          List.filter_nil, List.append_nil]
    · rw [if_neg (fun hand => hdefined hand.2), if_neg hdefined, if_neg hdefined]

/-- What has been written down mention by mention is held. -/
theorem Holds.foldl {defined : List String} {seen : List (String × String)} {a : Adjacency}
    (h : Holds defined seen a) (more : List (String × String)) :
    Holds defined (seen ++ more) (more.foldl (Adjacency.record defined) a) := by
  induction more generalizing seen a with
  | nil => rwa [List.append_nil]
  | cons mention more ih =>
    have hmore := ih (h.record mention)
    rwa [List.append_assoc] at hmore

/-- After all rules the maps hold all mentions. -/
theorem holds_fill (rules : List Rule) :
    Holds (rules.map RuleRecord.name) (mentions rules) (fill rules) := by
  have hempty : Holds (rules.map RuleRecord.name) [] ⟨fun _ => [], fun _ => []⟩ :=
    ⟨fun _ => rfl, fun _ => by split <;> rfl⟩
  have hfill : fill rules = (mentions rules).foldl (Adjacency.record (rules.map RuleRecord.name))
      ⟨fun _ => [], fun _ => []⟩ := by
    rw [mentions, List.foldl_flatMap]
    simp only [List.foldl_map]
    rfl
  rw [hfill]
  exact hempty.foldl (mentions rules)

end Adjacency

/-! ## The nodes hold what is filled -/

/-- The names that the rules of one name mention. -/
theorem map_snd_mentions (rules : List Rule) (x : String) :
    ((mentions rules).filter fun m => m.1 = x).map Prod.snd =
      (rules.filter fun rule => rule.name = x).flatMap RuleRecord.references := by
  induction rules with
  | nil => rfl
  | cons rule rules ih =>
    rw [mentions, List.flatMap_cons, List.filter_append, List.map_append, ← mentions, ih,
      List.filter_map, List.map_map]
    by_cases hx : rule.name = x
    · rw [List.filter_cons_of_pos (by simpa using hx), List.flatMap_cons]
      congr 1
      simp [Function.comp_def, hx]
    · rw [List.filter_cons_of_neg (by simpa using hx)]
      simp [Function.comp_def, hx]

/-- The rules that mention a name: a rule that mentions it repeatedly counts once. -/
theorem distinct_map_fst_mentions (rules : List Rule) (y : String) :
    distinct (((mentions rules).filter fun m => m.2 = y).map Prod.fst) =
      distinct ((rules.filter fun rule => y ∈ rule.references).map RuleRecord.name) := by
  induction rules with
  | nil => rfl
  | cons rule rules ih =>
    have hown : ((rule.references.map fun name => (rule.name, name)).filter fun m => m.2 = y).map
        Prod.fst = List.replicate (rule.references.count y) rule.name := by
      rw [List.filter_map, List.map_map]
      show (rule.references.filter fun name => name = y).map _ = _
      rw [List.filter_eq]
      simp
    rw [mentions, List.flatMap_cons, List.filter_append, List.map_append, ← mentions, hown]
    by_cases hy : y ∈ rule.references
    · obtain ⟨n, hn⟩ := Nat.exists_eq_add_one.mpr (List.count_pos_iff.mpr hy)
      rw [hn, distinct_replicate_append, distinct_cons, ih,
        List.filter_cons_of_pos (by simpa using hy), List.map_cons, distinct_cons]
    · rw [List.count_eq_zero.mpr hy, List.replicate_zero, List.nil_append, ih,
        List.filter_cons_of_neg (by simpa using hy)]

theorem fill_forward_eq (rules : List Rule) (x : String) :
    (Adjacency.fill rules).forward x = (nodeOf rules x).references := by
  rw [(Adjacency.holds_fill rules).forward_eq, map_snd_mentions]
  rfl

theorem fill_backward_eq {rules : List Rule} {y : String} (hy : y ∈ rules.map RuleRecord.name) :
    (Adjacency.fill rules).backward y = (nodeOf rules y).referencedBy := by
  rw [(Adjacency.holds_fill rules).backward_eq, if_pos hy, distinct_map_fst_mentions]
  rfl

/-! ## The order of the mentioning rules -/

/-- The position of the first rule of a name that mentions another name. -/
def firstMention (rules : List Rule) (x y : String) : Nat :=
  rules.findIdx fun rule => rule.name = x ∧ y ∈ rule.references

/-- The rules that mention a name come in the order in which they first do. -/
theorem referencedBy_pairwise (rules : List Rule) (y : String) :
    (nodeOf rules y).referencedBy.Pairwise fun x x' =>
      firstMention rules x y < firstMention rules x' y := by
  show (distinct ((rules.filter fun rule => y ∈ rule.references).map RuleRecord.name)).Pairwise _
  induction rules with
  | nil => exact List.Pairwise.nil
  | cons rule rules ih =>
    by_cases hy : y ∈ rule.references
    · rw [List.filter_cons_of_pos (by simpa using hy), List.map_cons, distinct_cons,
        List.pairwise_cons]
      -- the rule in front is the first mention under its own name and under no other
      have hown : firstMention (rule :: rules) rule.name y = 0 := by
        rw [firstMention, List.findIdx_cons]
        simp [hy]
      have hother {x : String} (hx : x ≠ rule.name) :
          firstMention (rule :: rules) x y = firstMention rules x y + 1 := by
        rw [firstMention, List.findIdx_cons]
        simp [Ne.symm hx, firstMention]
      constructor
      · intro x hmem
        rw [hown, hother (of_decide_eq_true (List.mem_filter.mp hmem).2)]
        exact Nat.succ_pos _
      · refine (ih.sublist List.filter_sublist).imp_of_mem fun {x x'} hx hx' hlt => ?_
        rw [hother (of_decide_eq_true (List.mem_filter.mp hx).2),
          hother (of_decide_eq_true (List.mem_filter.mp hx').2)]
        exact Nat.succ_lt_succ hlt
    · rw [List.filter_cons_of_neg (by simpa using hy)]
      have hnot (x : String) : firstMention (rule :: rules) x y = firstMention rules x y + 1 := by
        rw [firstMention, List.findIdx_cons]
        simp [hy, firstMention]
      exact ih.imp fun hlt => by rw [hnot, hnot]; exact Nat.succ_lt_succ hlt

/-! ## Duality -/

/-- The graph has one node for each name of the rules, and the two lists of neighbours of its nodes
show the mentions of the rules from both ends: each once, and in order. -/
structure Mirrors (g : Graph) (rules : List Rule) : Prop where
  keys : g.nodes.map Node.name = (rules.map RuleRecord.name).eraseDups
  node?_isSome : ∀ x, (g.node? x).isSome ↔ ∃ rule ∈ rules, rule.name = x
  mentions_iff : ∀ x y m n, g.node? x = some m → g.node? y = some n →
    (y ∈ m.references ↔ ∃ rule ∈ rules, rule.name = x ∧ y ∈ rule.references)
  dual : ∀ x y m n, g.node? x = some m → g.node? y = some n →
    (y ∈ m.references ↔ x ∈ n.referencedBy)
  references_nodup : ∀ x m, g.node? x = some m → m.references.Nodup
  references_eq : ∀ rule ∈ rules, (rules.map RuleRecord.name).count rule.name = 1 →
    (g.node? rule.name).map Node.references = some rule.references.eraseDups
  referencedBy_nodup : ∀ y n, g.node? y = some n → n.referencedBy.Nodup
  referencedBy_defined : ∀ y n, g.node? y = some n → ∀ x ∈ n.referencedBy, (g.node? x).isSome
  referencedBy_ordered : ∀ y n, g.node? y = some n →
    n.referencedBy.Pairwise fun x x' => firstMention rules x y < firstMention rules x' y

variable {rules : List Rule}

/-- A name that one rule has alone mentions what that rule mentions. -/
theorem references_nodeOf_of_count {rule : Rule} (hmem : rule ∈ rules)
    (honce : (rules.map RuleRecord.name).count rule.name = 1) :
    (nodeOf rules rule.name).references = rule.references.eraseDups := by
  have hlength : (rules.filter fun other => other.name = rule.name).length = 1 := by
    rw [← List.countP_eq_length_filter, ← honce, List.count, List.countP_map]
    exact List.countP_congr fun other _ => by simp
  obtain ⟨other, hother⟩ := List.length_eq_one_iff.mp hlength
  have hfilter : rule ∈ rules.filter fun other => other.name = rule.name :=
    List.mem_filter.mpr ⟨hmem, by simp⟩
  rw [hother, List.mem_singleton] at hfilter
  subst hfilter
  show distinct ((rules.filter fun other => other.name = rule.name).flatMap _) = _
  rw [hother, List.flatMap_singleton, distinct_eq_eraseDups]

theorem mirrors_ofRules (rules : List Rule) : Mirrors (ofRules rules) rules := by
  have hnode {x : String} {m : Node} (h : (ofRules rules).node? x = some m) :
      m = nodeOf rules x := (node?_ofRules_eq_some_iff.mp h).2
  have hdefined (x : String) :
      ((ofRules rules).node? x).isSome ↔ ∃ rule ∈ rules, rule.name = x := by
    rw [Option.isSome_iff_exists, ← List.mem_map]
    constructor
    · rintro ⟨m, hm⟩
      exact (node?_ofRules_eq_some_iff.mp hm).1
    · intro hx
      exact ⟨_, node?_ofRules_eq_some_iff.mpr ⟨hx, rfl⟩⟩
  refine ⟨?keys, hdefined, ?mentions, ?dual, ?nodup, ?own, ?nodupBy, ?definedBy, ?ordered⟩
  case keys =>
    rw [ofRules, List.map_map, ← distinct_eq_eraseDups]
    exact List.map_id _
  case mentions =>
    intro x y m n hm _
    rw [hnode hm, mem_references_nodeOf_iff]
  case dual =>
    intro x y m n hm hn
    rw [hnode hm, hnode hn, mem_references_nodeOf_iff, mem_referencedBy_nodeOf_iff]
  case nodup =>
    intro x m hm
    rw [hnode hm]
    exact nodup_distinct _
  case own =>
    intro rule hmem honce
    rw [node?_ofRules_eq_some_iff.mpr ⟨List.mem_map_of_mem hmem, rfl⟩, Option.map_some,
      references_nodeOf_of_count hmem honce]
  case nodupBy =>
    intro y n hn
    rw [hnode hn]
    exact nodup_distinct _
  case definedBy =>
    intro y n hn x hx
    rw [hnode hn, mem_referencedBy_nodeOf_iff] at hx
    obtain ⟨rule, hrule, hname, -⟩ := hx
    exact (hdefined x).mpr ⟨rule, hrule, hname⟩
  case ordered =>
    intro y n hn
    rw [hnode hn]
    exact referencedBy_pairwise rules y

theorem map_name_attach (g : Graph) (rules : List Rule) :
    (g.attach rules).map RuleRecord.name = rules.map RuleRecord.name := by
  rw [attach, List.map_map]
  refine List.map_congr_left fun rule _ => ?_
  show (g.attachOne rule).name = rule.name
  unfold attachOne
  split <;> rfl

/-- **Forward and backward neighbours are dual**: the graph of any list of rules, with repeated
names and undefined mentions, holds what is filled in mention by mention, and shows every mention of
a defined name from both ends. So do the rules once they carry the neighbours of the graph. -/
theorem ofRules_dual (rules : List Rule) :
    (∀ x m, (ofRules rules).node? x = some m →
      m.references = (Adjacency.fill rules).forward x ∧
        m.referencedBy = (Adjacency.fill rules).backward x) ∧
      Mirrors (ofRules rules) rules ∧
      ((ofRules rules).attach rules).map RuleRecord.name = rules.map RuleRecord.name ∧
      ∀ a ∈ (ofRules rules).attach rules, ∀ b ∈ (ofRules rules).attach rules,
        (b.name ∈ a.references ↔ a.name ∈ b.referencedBy) ∧
        (b.name ∈ a.references ↔
          ∃ rule ∈ rules, rule.name = a.name ∧ b.name ∈ rule.references) := by
  refine ⟨fun x m hm => ?_, mirrors_ofRules rules, map_name_attach _ rules, fun a ha b hb =>
    ⟨mem_references_iff_mem_referencedBy ha hb, ?_⟩⟩
  · obtain ⟨hx, rfl⟩ := node?_ofRules_eq_some_iff.mp hm
    exact ⟨(fill_forward_eq rules x).symm, (fill_backward_eq hx).symm⟩
  · obtain ⟨found, -, hname, -, hrefs, -⟩ := mem_attach_ofRules ha
    rw [hrefs, mem_references_nodeOf_iff, hname]

end Graph

end GrammarAudit
