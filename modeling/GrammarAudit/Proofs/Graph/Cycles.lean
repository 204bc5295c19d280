import GrammarAudit.Proofs.Graph.Adjacency
import GrammarAudit.Proofs.Graph.Reachability
import Mathlib.Data.List.Cycle

/-!
# Cycles and recursion

A path visits names one after another along edges, the mentions of defined names. What a path leads
to, a walk without repeats leads to as well, and a name that a path leads back to lies on a cycle
without repeats. So the two classes of recursive rules are those that mention themselves and those
that do not and lie on a cycle with another rule.

- `Graph.Edge`, `Graph.Walk`: mentions of defined names, and names along them.
- `Graph.exists_walk`: a path, or no step at all, gives a walk without repeats.
- `Graph.path_iff_exists_names`: paths as lists of names.
- `Graph.exists_cycle`, `Graph.path_self_iff`: the cycles on which a name lies.
- `Graph.recursion_ofRules`: the recursive rules of any list of rules.
-/

namespace GrammarAudit.Graph

/-- A mention of a defined name. -/
def Edge (g : Graph) (a b : String) : Prop :=
  b ∈ g.referencesOf a ∧ g.defines b

/-- Names from one to another, each joined to the next one by an edge. -/
structure Walk (g : Graph) (names : List String) (a b : String) : Prop where
  head : names.head? = some a
  last : names.getLast? = some b
  chain : names.IsChain g.Edge

variable {g : Graph} {a b c : String}

/-! ## Walks without repeats -/

theorem Walk.single (g : Graph) (a : String) : g.Walk [a] a a :=
  ⟨rfl, rfl, List.isChain_singleton a⟩

/-- A walk goes on along an edge. -/
theorem Walk.snoc {names : List String} (h : g.Walk names a b) (edge : g.Edge b c) :
    g.Walk (names ++ [c]) a c where
  head := by rw [List.head?_append, h.head, Option.some_or]
  last := List.getLast?_concat
  chain := by
    refine h.chain.append (List.isChain_singleton c) fun x hx y hy => ?_
    rw [h.last] at hx
    cases hx
    cases hy
    exact edge

/-- A walk may end at any name that it visits. -/
theorem Walk.upTo {names : List String} (h : g.Walk names a b) (hc : c ∈ names) :
    ∃ start, start <+: names ∧ g.Walk start a c := by
  obtain ⟨before, after, rfl⟩ := List.append_of_mem hc
  have hprefix : before ++ [c] <+: before ++ c :: after := ⟨after, by simp⟩
  refine ⟨before ++ [c], hprefix, ?_, List.getLast?_concat, h.chain.prefix hprefix⟩
  rw [← h.head, List.head?_append, List.head?_append]
  rfl

/-- A path, or no step at all, gives a walk that visits no name twice. -/
theorem exists_walk (h : a = b ∨ g.Path a b) : ∃ names, names.Nodup ∧ g.Walk names a b := by
  have hsingle : ∃ names, names.Nodup ∧ g.Walk names a a :=
    ⟨[a], List.nodup_singleton a, .single g a⟩
  -- a walk that comes to a name again is cut short at its first visit
  have hextend {b c : String} (ih : ∃ names, names.Nodup ∧ g.Walk names a b)
      (edge : g.Edge b c) : ∃ names, names.Nodup ∧ g.Walk names a c := by
    obtain ⟨names, hnodup, hwalk⟩ := ih
    by_cases hc : c ∈ names
    · obtain ⟨start, hprefix, hstart⟩ := hwalk.upTo hc
      exact ⟨start, hnodup.sublist hprefix.sublist, hstart⟩
    · refine ⟨names ++ [c], ?_, hwalk.snoc edge⟩
      exact hnodup.append (List.nodup_singleton c) (List.disjoint_singleton.mpr hc)
  rcases h with rfl | h
  · exact hsingle
  · induction h with
    | step mentioned defined => exact hextend hsingle ⟨mentioned, defined⟩
    | snoc _ mentioned defined ih => exact hextend ih ⟨mentioned, defined⟩

/-! ## Paths as lists of names -/

/-- The last step of a path. -/
theorem Path.exists_edge (h : g.Path a b) : ∃ c, (a = c ∨ g.Path a c) ∧ g.Edge c b := by
  cases h with
  | step mentioned defined => exact ⟨a, .inl rfl, mentioned, defined⟩
  | snoc path mentioned defined => exact ⟨_, .inr path, mentioned, defined⟩

theorem Path.defines (h : g.Path a b) : g.defines b := by
  obtain ⟨c, -, edge⟩ := h.exists_edge
  exact edge.2

theorem Path.trans (hab : g.Path a b) (hbc : g.Path b c) : g.Path a c := by
  induction hbc with
  | step mentioned defined => exact hab.snoc mentioned defined
  | snoc _ mentioned defined ih => exact ih.snoc mentioned defined

/-- Names are joined by edges if all after the first are defined and each mentions the next one. -/
theorem isChain_edge_iff {names : List String} :
    (a :: names).IsChain g.Edge ↔
      (∀ c ∈ names, g.defines c) ∧ (a :: names).IsChain fun c d => d ∈ g.referencesOf c := by
  induction names generalizing a with
  | nil => simp
  | cons b names ih =>
    rw [List.isChain_cons_cons, List.isChain_cons_cons, ih, List.forall_mem_cons, Edge]
    constructor
    · rintro ⟨⟨hmention, hb⟩, hdefined, hchain⟩
      exact ⟨⟨hb, hdefined⟩, hmention, hchain⟩
    · rintro ⟨⟨hb, hdefined⟩, hmention, hchain⟩
      exact ⟨⟨hmention, hb⟩, hdefined, hchain⟩

/-- A path leads to every name along edges. -/
theorem path_of_mem {names : List String} (h : (a :: names).IsChain g.Edge) (hb : b ∈ names) :
    g.Path a b := by
  induction names generalizing a with
  | nil => cases hb
  | cons c names ih =>
    obtain ⟨edge, hchain⟩ := List.isChain_cons_cons.mp h
    have hstep : g.Path a c := .step edge.1 edge.2
    rcases List.mem_cons.mp hb with rfl | hb
    · exact hstep
    · exact hstep.trans (ih hchain hb)

/-- A path is a list of defined names after the first one, each mentioned by the one before. -/
theorem path_iff_exists_names :
    g.Path a b ↔ ∃ names, names.getLast? = some b ∧ (∀ c ∈ names, g.defines c) ∧
      (a :: names).IsChain fun c d => d ∈ g.referencesOf c := by
  simp only [← isChain_edge_iff]
  constructor
  · intro h
    obtain ⟨c, hc, edge⟩ := h.exists_edge
    obtain ⟨names, -, hwalk⟩ := exists_walk hc
    obtain ⟨rest, rfl⟩ := List.head?_eq_some_iff.mp hwalk.head
    exact ⟨rest ++ [b], List.getLast?_concat, (hwalk.snoc edge).chain⟩
  · rintro ⟨names, hlast, hchain⟩
    exact path_of_mem hchain (List.mem_of_getLast? hlast)

/-! ## Cycles -/

/-- A step back to where a path began closes a cycle without repeats. -/
theorem exists_cycle (h : a = b ∨ g.Path a b) (edge : g.Edge b a) :
    ∃ cycle : Cycle String, cycle.Nodup ∧ cycle.Chain g.Edge ∧ a ∈ cycle ∧ b ∈ cycle := by
  obtain ⟨names, hnodup, hwalk⟩ := exists_walk h
  obtain ⟨rest, rfl⟩ := List.head?_eq_some_iff.mp hwalk.head
  have hchain : ((a :: rest : List String) : Cycle String).Chain g.Edge :=
    (Cycle.chain_coe_cons _ _ _).mpr (hwalk.snoc edge).chain
  exact ⟨_, Cycle.nodup_coe_iff.mpr hnodup, hchain, List.mem_cons_self,
    List.mem_of_getLast? hwalk.last⟩

/-- Paths lead from every name of a cycle to every other one, and back to itself. -/
theorem path_of_cycle {cycle : Cycle String} (h : cycle.Chain g.Edge) (ha : a ∈ cycle)
    (hb : b ∈ cycle) : g.Path a b := by
  have htrans : IsTrans String g.Path := ⟨fun _ _ _ => Path.trans⟩
  have hpaths : cycle.Chain g.Path := h.imp fun c d edge => .step edge.1 edge.2
  exact Cycle.chain_iff_pairwise.mp hpaths a ha b hb

/-- A path leads from a name back to it exactly if it lies on a cycle. -/
theorem path_self_iff :
    g.Path a a ↔ ∃ cycle : Cycle String, cycle.Nodup ∧ cycle.Chain g.Edge ∧ a ∈ cycle := by
  constructor
  · intro h
    obtain ⟨b, hb, edge⟩ := h.exists_edge
    obtain ⟨cycle, hnodup, hchain, ha, -⟩ := exists_cycle hb edge
    exact ⟨cycle, hnodup, hchain, ha⟩
  · rintro ⟨cycle, -, hchain, ha⟩
    exact path_of_cycle hchain ha ha

/-! ## Recursive rules -/

variable {rules : List Rule}

/-- A rule of the first name has the second one among its references. -/
def RefersTo (rules : List Rule) (a b : String) : Prop :=
  ∃ rule ∈ rules, rule.name = a ∧ b ∈ rule.references

theorem defines_ofRules {name : String} :
    (ofRules rules).defines name ↔ name ∈ rules.map RuleRecord.name := by
  rw [defines_iff]
  constructor
  · rintro ⟨node, hnode⟩
    exact (node?_ofRules_eq_some_iff.mp hnode).1
  · intro h
    exact ⟨_, node?_ofRules_eq_some_iff.mpr ⟨h, rfl⟩⟩

theorem mem_referencesOf_ofRules {x y : String} :
    y ∈ (ofRules rules).referencesOf x ↔ RefersTo rules x y := by
  by_cases hx : x ∈ rules.map RuleRecord.name
  · have hnode : (ofRules rules).node? x = some (nodeOf rules x) :=
      node?_ofRules_eq_some_iff.mpr ⟨hx, rfl⟩
    rw [referencesOf_of_node? hnode, mem_references_nodeOf_iff, RefersTo]
  · refine iff_of_false (fun h => ?_) ?_
    · unfold referencesOf at h
      split at h
      · next hnode => exact hx (node?_ofRules_eq_some_iff.mp hnode).1
      · cases h
    · rintro ⟨rule, hrule, rfl, -⟩
      exact hx (List.mem_map_of_mem hrule)

/-- The edges of the graph of some rules. -/
theorem edge_ofRules :
    (ofRules rules).Edge = fun a b => RefersTo rules a b ∧ b ∈ rules.map RuleRecord.name := by
  funext a b
  rw [Edge, mem_referencesOf_ofRules, defines_ofRules]

/-- A name that mentions itself is the name of a rule. -/
theorem isDirect_ofRules {name : String} :
    (ofRules rules).isDirect name ↔ RefersTo rules name name := by
  rw [isDirect, Bool.and_eq_true, decide_eq_true_eq, mem_referencesOf_ofRules, defines_ofRules]
  refine and_iff_right_of_imp ?_
  rintro ⟨rule, hrule, rfl, -⟩
  exact List.mem_map_of_mem hrule

/-- A name that does not mention itself is indirectly recursive if it lies on a cycle with another
one. -/
theorem isIndirect_iff_cycle {name : String} :
    g.isIndirect name ↔ name ∉ g.referencesOf name ∧
      ∃ cycle : Cycle String, cycle.Nodup ∧ cycle.Chain g.Edge ∧ name ∈ cycle ∧
        ∃ other ∈ cycle, other ≠ name := by
  rw [isIndirect_iff]
  constructor
  · rintro ⟨hdefined, hself, other, hpath, hne, hmention⟩
    obtain ⟨cycle, hnodup, hchain, hname, hother⟩ :=
      exists_cycle (.inr hpath) ⟨hmention, hdefined⟩
    exact ⟨hself, cycle, hnodup, hchain, hname, other, hother, hne⟩
  · rintro ⟨hself, cycle, -, hchain, hname, -⟩
    have hpath : g.Path name name := path_of_cycle hchain hname hname
    obtain ⟨other, hother, edge⟩ := hpath.exists_edge
    -- the name before it on the cycle is another one, since it does not mention itself
    have hne : other ≠ name := by
      rintro rfl
      exact hself edge.1
    exact ⟨hpath.defines, hself, other, hother.resolve_left hne.symm, hne, edge.1⟩

/-- **Recursion is found exactly.** Of any list of rules, where those of one name count as one, the
directly recursive ones are those that refer to themselves, and the indirectly recursive ones those
that do not and lie on a cycle of references with another rule. No rule is both, and every name that
the classification looks up has a node. -/
theorem recursion_ofRules (rules : List Rule) :
    let g := ofRules rules
    let found := g.recursion rules
    (∀ name, name ∈ found.direct ↔ RefersTo rules name name) ∧
      (∀ name, name ∈ found.indirect ↔ ¬RefersTo rules name name ∧
        ∃ cycle : Cycle String, cycle.Nodup ∧
          cycle.Chain (fun a b => RefersTo rules a b ∧ b ∈ rules.map RuleRecord.name) ∧
          name ∈ cycle ∧ ∃ other ∈ cycle, other ≠ name) ∧
      found.direct.Disjoint found.indirect ∧
      ∀ rule ∈ rules, ∀ name ∈ rule.name :: g.reachableFrom rule.name,
        ∃ node, g.node? name = some node := by
  intro g found
  have hdirect (name : String) : name ∈ found.direct ↔ RefersTo rules name name := by
    rw [← isDirect_ofRules]
    refine List.mem_filter.trans (and_iff_right_of_imp fun h => ?_)
    rw [isDirect, Bool.and_eq_true] at h
    exact mem_distinct.mpr (defines_ofRules.mp h.1)
  have hindirect (name : String) : name ∈ found.indirect ↔ g.isIndirect name := by
    refine List.mem_filter.trans (and_iff_right_of_imp fun h => ?_)
    exact mem_distinct.mpr (defines_ofRules.mp (isIndirect_iff.mp h).1)
  refine ⟨hdirect, fun name => ?_, fun name h h' => ?_, fun rule hrule name hname => ?_⟩
  · rw [hindirect, isIndirect_iff_cycle, mem_referencesOf_ofRules, edge_ofRules]
  · rw [hindirect, isIndirect_iff, mem_referencesOf_ofRules] at h'
    exact h'.2.1 ((hdirect name).mp h)
  · rw [← defines_iff]
    rcases List.mem_cons.mp hname with rfl | hname
    · exact defines_ofRules.mpr (List.mem_map_of_mem hrule)
    · exact (mem_reachableFrom_iff.mp hname).defines

end GrammarAudit.Graph
