import GrammarAudit.Graph.Basic

/-!
# Reachability

- `Graph.Path`: a path of one or more steps through defined names.
- `Graph.reachableFrom`: the names at the end of such a path, found by a search that visits each
  defined name once.
-/

namespace GrammarAudit.Graph

/-- A path of one or more steps from one name to another; every name after the first is
defined. -/
inductive Path (g : Graph) : String → String → Prop where
  | step {a b : String} : b ∈ g.referencesOf a → g.defines b → Path g a b
  | snoc {a b c : String} : Path g a b → c ∈ g.referencesOf b → g.defines c → Path g a c

/-- The defined names that have not been reached yet. -/
def unreached (g : Graph) (reached : List String) : List String :=
  (g.nodes.map Node.name).filter (· ∉ reached)

theorem unreached_lt {g : Graph} {reached : List String} {name : String} {node : Node}
    (found : g.node? name = some node) (fresh : name ∉ reached) :
    (g.unreached (name :: reached)).length < (g.unreached reached).length := by
  have mem : name ∈ g.nodes.map Node.name := by
    have h₁ := List.mem_of_find?_eq_some found
    have h₂ := List.find?_some found
    simp only [decide_eq_true_eq] at h₂
    exact List.mem_map.2 ⟨node, h₁, h₂⟩
  have sub : g.unreached (name :: reached) = (g.unreached reached).filter (· ≠ name) := by
    unfold unreached
    rw [List.filter_filter]
    congr 1
    funext x
    simp only [List.mem_cons, not_or, ne_eq, Bool.decide_and]
  rw [sub]
  apply List.length_filter_lt_length_iff_exists.2
  exact ⟨name, List.mem_filter.2 ⟨mem, by simpa using fresh⟩, by simp⟩

/-- Visits the pending names and all that they lead to, and gives all names reached. -/
def visit (g : Graph) (reached : List String) (pending : List String) : List String :=
  match pending with
  | [] => reached
  | name :: rest =>
    if _fresh : name ∈ reached then visit g reached rest
    else
      match _found : g.node? name with
      | none => visit g reached rest
      | some node => visit g (name :: reached) (node.references ++ rest)
termination_by ((g.unreached reached).length, pending.length)
decreasing_by
  · exact Prod.Lex.right _ (by simp)
  · exact Prod.Lex.right _ (by simp)
  · exact Prod.Lex.left _ _ (unreached_lt _found _fresh)

/-- The names that can be reached from a name in one or more steps; the name itself only when it
lies on a cycle. -/
def reachableFrom (g : Graph) (name : String) : List String :=
  g.visit [] (g.referencesOf name)

end GrammarAudit.Graph
