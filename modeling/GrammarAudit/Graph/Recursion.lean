import GrammarAudit.Graph.Reachability

/-!
# Recursion

A rule that mentions itself is directly recursive. A rule that does not, and that another rule it
leads to mentions again, is indirectly recursive.

- `Graph.isDirect`, `Graph.isIndirect`: the two classes of names.
- `Recursion`, `Graph.recursion`: the names of each class among a list of rules.
-/

namespace GrammarAudit

/-- The directly and the indirectly recursive names of a list of rules. -/
structure Recursion where
  direct : List String
  indirect : List String
deriving DecidableEq, Repr

namespace Graph

/-- Whether a defined name mentions itself. -/
def isDirect (g : Graph) (name : String) : Bool :=
  g.defines name && name ∈ g.referencesOf name

/-- Whether a defined name does not mention itself, but is mentioned again by another name that it
leads to. -/
def isIndirect (g : Graph) (name : String) : Bool :=
  g.defines name && name ∉ g.referencesOf name &&
    (g.reachableFrom name).any fun other => other ≠ name && name ∈ g.referencesOf other

/-- The recursive names among the rules. -/
def recursion (g : Graph) (rules : List Rule) : Recursion :=
  let names := distinct (rules.map RuleRecord.name)
  ⟨names.filter g.isDirect, names.filter g.isIndirect⟩

end Graph

end GrammarAudit
