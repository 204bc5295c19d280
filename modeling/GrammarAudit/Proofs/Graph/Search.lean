import GrammarAudit.Proofs.Graph.Cycles
import Mathlib.Data.List.Flatten

/-!
# The search turn by turn

The search for what can be reached keeps the names reached so far and a stack. A turn takes a name
off the stack and passes over it if it has been reached; otherwise it is reached now, and what it
mentions goes on the stack, less the names that are undefined or have been reached. A name may stand
on the stack more than once.

- `Graph.Search`, `Graph.turn`, `Graph.Ends`: the state, one turn, and runs of the loop to its end.
- `Graph.Search.Sound`, `Graph.Search.Sound.turn`: the invariant and its preservation.
- `Graph.Search.size`, `Graph.size_lt_of_turn`: the measure that each turn lowers.
- `Graph.exists_ends`: the loop ends, and how many turns it takes at most.
- `Graph.closure_of_search`: what is found is the transitive closure.
-/

namespace GrammarAudit.Graph

/-- The names reached so far, and the stack with the name to be taken next in front. -/
structure Search where
  reached : List String
  stack : List String

/-- What a turn comes to. -/
inductive Turn where
  | finished
  | missing (name : String)
  | next (s : Search)

/-- What goes on the stack of some mentions: the defined names that have not been reached, the last
one in front. -/
def pushed (g : Graph) (reached references : List String) : List String :=
  (references.filter fun name => g.defines name && !reached.contains name).reverse

/-- The start of the search from a name. -/
def searchFrom (g : Graph) (name : String) : Search :=
  ⟨[], g.pushed [] (g.referencesOf name)⟩

/-- One turn of the loop, which looks the node of a name up only when it reaches the name. -/
def turn (g : Graph) (s : Search) : Turn :=
  match s.stack with
  | [] => .finished
  | name :: rest =>
    if name ∈ s.reached then .next ⟨s.reached, rest⟩
    else
      match g.node? name with
      | none => .missing name
      | some node =>
        .next ⟨name :: s.reached, g.pushed (name :: s.reached) node.references ++ rest⟩

/-- The loop comes to its end after a number of turns, without missing a node. -/
inductive Ends (g : Graph) : Nat → Search → Search → Prop where
  | finished {s : Search} : g.turn s = .finished → Ends g 0 s s
  | next {s s' last : Search} {turns : Nat} :
    g.turn s = .next s' → Ends g turns s' last → Ends g (turns + 1) s last

variable {g : Graph} {s s' : Search} {a b start : String}

theorem mem_pushed {reached references : List String} :
    a ∈ g.pushed reached references ↔ a ∈ references ∧ g.defines a ∧ a ∉ reached := by
  simp [pushed]

/-! ## One turn -/

theorem stack_of_finished (h : g.turn s = .finished) : s.stack = [] := by
  unfold turn at h
  split at h
  · assumption
  · split at h
    · cases h
    · split at h <;> cases h

theorem stack_of_missing {name : String} (h : g.turn s = .missing name) :
    name ∈ s.stack ∧ g.node? name = none := by
  unfold turn at h
  split at h
  · cases h
  · next hstack =>
    split at h
    · cases h
    · split at h
      · next hnode =>
        cases h
        rw [hstack]
        exact ⟨List.mem_cons_self, hnode⟩
      · cases h

/-- What a turn does with the name on top: it has been reached, or it is reached now. -/
theorem turn_cases (h : g.turn s = .next s') :
    ∃ name rest, s.stack = name :: rest ∧
      (name ∈ s.reached ∧ s' = ⟨s.reached, rest⟩ ∨
        name ∉ s.reached ∧ ∃ node, g.node? name = some node ∧
          s' = ⟨name :: s.reached, g.pushed (name :: s.reached) node.references ++ rest⟩) := by
  unfold turn at h
  split at h
  · cases h
  · next name rest hstack =>
    refine ⟨name, rest, hstack, ?_⟩
    split at h
    · next hseen =>
      cases h
      exact .inl ⟨hseen, rfl⟩
    · next hfresh =>
      split at h
      · cases h
      · next node hnode =>
        cases h
        exact .inr ⟨hfresh, node, hnode, rfl⟩

/-! ## What a turn keeps -/

/-- The names that have been reached or wait on the stack. -/
def Search.Knows (s : Search) (a : String) : Prop :=
  a ∈ s.reached ∨ a ∈ s.stack

/-- What holds of the search from a name at any time. -/
structure Search.Sound (g : Graph) (start : String) (s : Search) : Prop where
  nodup : s.reached.Nodup
  path : ∀ a, s.Knows a → g.Path start a
  first : ∀ a ∈ g.referencesOf start, g.defines a → s.Knows a
  closed : ∀ a ∈ s.reached, ∀ b ∈ g.referencesOf a, g.defines b → s.Knows b

theorem sound_searchFrom (g : Graph) (name : String) : (g.searchFrom name).Sound g name where
  nodup := List.nodup_nil
  path := by
    rintro a (h | h)
    · cases h
    · obtain ⟨hmention, hdefined, -⟩ := mem_pushed.mp h
      exact .step hmention hdefined
  first := fun a hmention hdefined =>
    .inr (mem_pushed.mpr ⟨hmention, hdefined, List.not_mem_nil⟩)
  closed := fun a h => absurd h List.not_mem_nil

/-- No name is forgotten. -/
theorem Search.Knows.turn (h : s.Knows a) (hturn : g.turn s = .next s') : s'.Knows a := by
  obtain ⟨name, rest, hstack, ⟨hseen, rfl⟩ | ⟨-, node, -, rfl⟩⟩ := turn_cases hturn
  · rcases h with h | h
    · exact .inl h
    · rcases List.mem_cons.mp (hstack ▸ h) with rfl | h
      · exact .inl hseen
      · exact .inr h
  · rcases h with h | h
    · exact .inl (List.mem_cons_of_mem name h)
    · rcases List.mem_cons.mp (hstack ▸ h) with rfl | h
      · exact .inl List.mem_cons_self
      · exact .inr (List.mem_append_right _ h)

/-- A turn keeps the search sound. -/
theorem Search.Sound.turn (h : s.Sound g start) (hturn : g.turn s = .next s') :
    s'.Sound g start := by
  have hfirst (a) (ha : a ∈ g.referencesOf start) (hdefined : g.defines a) : s'.Knows a :=
    (h.first a ha hdefined).turn hturn
  have hclosed (a) (ha : a ∈ s.reached) (b) (hb : b ∈ g.referencesOf a) (hdefined : g.defines b) :
      s'.Knows b :=
    (h.closed a ha b hb hdefined).turn hturn
  obtain ⟨name, rest, hstack, hcases⟩ := turn_cases hturn
  have hname : g.Path start name := h.path name (.inr (hstack ▸ List.mem_cons_self))
  have hrest (a) (ha : a ∈ rest) : g.Path start a :=
    h.path a (.inr (hstack ▸ List.mem_cons_of_mem name ha))
  rcases hcases with ⟨-, rfl⟩ | ⟨hfresh, node, hnode, rfl⟩
  · exact ⟨h.nodup, fun a ha => ha.elim (fun ha => h.path a (.inl ha)) (hrest a), hfirst, hclosed⟩
  refine ⟨List.nodup_cons.mpr ⟨hfresh, h.nodup⟩, ?path, hfirst, ?closed⟩
  case path =>
    rintro a (ha | ha)
    · rcases List.mem_cons.mp ha with rfl | ha
      · exact hname
      · exact h.path a (.inl ha)
    · rcases List.mem_append.mp ha with ha | ha
      · obtain ⟨hmention, hdefined, -⟩ := mem_pushed.mp ha
        exact hname.snoc (referencesOf_of_node? hnode ▸ hmention) hdefined
      · exact hrest a ha
  case closed =>
    intro a ha b hb hdefined
    rcases List.mem_cons.mp ha with rfl | ha
    · rw [referencesOf_of_node? hnode] at hb
      by_cases hseen : b ∈ a :: s.reached
      · exact .inl hseen
      · exact .inr (List.mem_append_left _ (mem_pushed.mpr ⟨hb, hdefined, hseen⟩))
    · exact hclosed a ha b hb hdefined

/-- Whatever is looked up has a node. -/
theorem Search.Sound.turn_ne_missing (h : s.Sound g start) (name : String) :
    g.turn s ≠ .missing name := by
  intro hmissing
  obtain ⟨hstack, hnode⟩ := stack_of_missing hmissing
  exact not_defines_of_node? hnode (h.path name (.inr hstack)).defines

/-! ## The end of the loop -/

/-- All mentions that the names not reached yet make. -/
def mentionsLeft (g : Graph) (reached : List String) : List String :=
  (g.nodes.filter fun node => !reached.contains node.name).flatMap Node.references

/-- The names on the stack, and those that may still come to it. -/
def Search.size (g : Graph) (s : Search) : Nat :=
  s.stack.length + (g.mentionsLeft s.reached).length

/-- When a name is reached, its mentions are left no longer. -/
theorem length_mentionsLeft_cons {reached : List String} {name : String} {node : Node}
    (hnode : g.node? name = some node) (hfresh : name ∉ reached) :
    node.references.length + (g.mentionsLeft (name :: reached)).length ≤
      (g.mentionsLeft reached).length := by
  have hname : node.name = name := by simpa using List.find?_some hnode
  obtain ⟨before, after, hnodes⟩ := List.append_of_mem (List.mem_of_find?_eq_some hnode)
  have hless (nodes : List Node) :
      ((nodes.filter fun node => !(name :: reached).contains node.name).flatMap
        Node.references).length ≤
      ((nodes.filter fun node => !reached.contains node.name).flatMap
        Node.references).length := by
    refine ((List.monotone_filter_right nodes fun node h => ?_).flatMap _).length_le
    rw [List.contains_cons] at h
    simp_all
  have hbefore := hless before
  have hafter := hless after
  unfold mentionsLeft
  rw [hnodes]
  simp only [List.filter_append, List.flatMap_append, List.length_append]
  rw [List.filter_cons_of_neg (by simp [hname]), List.filter_cons_of_pos (by simpa [hname]),
    List.flatMap_cons, List.length_append]
  omega

/-- Every turn lowers the measure. -/
theorem size_lt_of_turn (hturn : g.turn s = .next s') : s'.size g < s.size g := by
  obtain ⟨name, rest, hstack, ⟨-, rfl⟩ | ⟨hfresh, node, hnode, rfl⟩⟩ := turn_cases hturn
  · show rest.length + (g.mentionsLeft s.reached).length < s.stack.length + _
    rw [hstack, List.length_cons]
    omega
  · have hleft := length_mentionsLeft_cons hnode hfresh
    have hpushed : (g.pushed (name :: s.reached) node.references).length ≤
        node.references.length := by
      rw [pushed, List.length_reverse]
      exact List.length_filter_le _ _
    show (_ ++ rest).length + (g.mentionsLeft (name :: s.reached)).length < s.stack.length + _
    rw [hstack, List.length_append, List.length_cons]
    omega

/-- A sound search ends, in no more turns than its measure, and is sound then. -/
theorem exists_ends (h : s.Sound g start) :
    ∃ turns ≤ s.size g, ∃ last, g.Ends turns s last ∧ last.Sound g start ∧ last.stack = [] := by
  induction hsize : s.size g using Nat.strong_induction_on generalizing s with
  | h size ih =>
    cases hturn : g.turn s with
    | finished => exact ⟨0, Nat.zero_le _, s, .finished hturn, h, stack_of_finished hturn⟩
    | missing name => exact absurd hturn (h.turn_ne_missing name)
    | next s' =>
      have hlt : s'.size g < size := hsize ▸ size_lt_of_turn hturn
      obtain ⟨turns, hturns, last, hends, hlast⟩ := ih _ hlt (h.turn hturn) rfl
      exact ⟨turns + 1, Nat.lt_of_le_of_lt hturns hlt, last, .next hturn hends, hlast⟩

/-- At the end of a sound search the names reached are those that a path leads to. -/
theorem Search.Sound.mem_reached_iff (h : s.Sound g start) (hstack : s.stack = []) :
    a ∈ s.reached ↔ g.Path start a := by
  have hknows {a : String} (ha : s.Knows a) : a ∈ s.reached := by
    rw [Search.Knows, hstack] at ha
    exact ha.resolve_right List.not_mem_nil
  refine ⟨fun ha => h.path a (.inl ha), fun hpath => ?_⟩
  induction hpath with
  | step mentioned defined => exact hknows (h.first _ mentioned defined)
  | snoc _ mentioned defined ih => exact hknows (h.closed _ ih _ mentioned defined)

/-- The search never lists a name twice. -/
theorem nodup_visit {reached pending : List String} (h : reached.Nodup) :
    (g.visit reached pending).Nodup := by
  induction reached, pending using visit.induct g with
  | case1 reached => rwa [visit_nil]
  | case2 reached name rest seen ih =>
    rw [visit_seen seen]
    exact ih h
  | case3 reached name rest fresh undefined ih =>
    rw [visit_undefined fresh undefined]
    exact ih h
  | case4 reached name rest fresh node found ih =>
    rw [visit_fresh fresh found]
    exact ih (List.nodup_cons.mpr ⟨fresh, h⟩)

/-- The start of a search is no larger than all mentions of the graph and those of its name. -/
theorem size_searchFrom_le (g : Graph) (name : String) :
    (g.searchFrom name).size g ≤
      (g.referencesOf name).length + (g.nodes.flatMap Node.references).length := by
  have hstack : (g.pushed [] (g.referencesOf name)).length ≤ (g.referencesOf name).length := by
    rw [pushed, List.length_reverse]
    exact List.length_filter_le _ _
  have hleft : (g.mentionsLeft []).length ≤ (g.nodes.flatMap Node.references).length :=
    (List.filter_sublist.flatMap _).length_le
  exact Nat.add_le_add hstack hleft

/-- **Reachability is the transitive closure.** In every graph the search from a name ends, after no
more turns than there are mentions, with all look-ups answered; what it has reached then is what is
given as reachable. These are, each once, the ends of the paths of one or more mentions on which
every name after the first is defined. An undefined name reaches nothing, and a name reaches itself
exactly if it lies on a cycle. -/
theorem closure_of_search (g : Graph) (name : String) :
    (∃ turns ≤ (g.referencesOf name).length + (g.nodes.flatMap Node.references).length,
      ∃ last, g.Ends turns (g.searchFrom name) last ∧
        last.reached.Perm (g.reachableFrom name)) ∧
      (g.reachableFrom name).Nodup ∧
      (∀ other, other ∈ g.reachableFrom name ↔
        ∃ names, names.getLast? = some other ∧ (∀ a ∈ names, g.defines a) ∧
          (name :: names).IsChain fun a b => b ∈ g.referencesOf a) ∧
      (¬g.defines name → g.reachableFrom name = []) ∧
      (name ∈ g.reachableFrom name ↔
        ∃ cycle : Cycle String, cycle.Nodup ∧ cycle.Chain g.Edge ∧ name ∈ cycle) := by
  have hnodup : (g.reachableFrom name).Nodup := nodup_visit List.nodup_nil
  refine ⟨?loop, hnodup, fun other => ?paths, fun hundefined => ?undefined, ?cycle⟩
  case loop =>
    obtain ⟨turns, hturns, last, hends, hlast, hstack⟩ := exists_ends (sound_searchFrom g name)
    refine ⟨turns, hturns.trans (size_searchFrom_le g name), last, hends, ?_⟩
    refine (List.perm_ext_iff_of_nodup hlast.nodup hnodup).mpr fun a => ?_
    rw [hlast.mem_reached_iff hstack, mem_reachableFrom_iff]
  case paths => rw [mem_reachableFrom_iff, path_iff_exists_names]
  case undefined =>
    have hnone : g.node? name = none := by simpa [defines] using hundefined
    rw [reachableFrom, referencesOf, hnone, visit_nil]
  case cycle => rw [mem_reachableFrom_iff, path_self_iff]

end GrammarAudit.Graph
