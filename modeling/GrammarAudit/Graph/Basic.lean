import GrammarAudit.Distinct
import GrammarAudit.Grammar.Reference
import GrammarAudit.Rule
import GrammarAudit.Text.Numeral

/-!
# The reference graph

Which rule mentions which. Only defined rules are nodes: a mention of an undefined name stays with
the rule that makes it and is no edge.

- `Node`, `Graph`: a rule's neighbours, and one node per name in the order of first definitions.
- `Graph.ofRules`: the graph of a list of rules; rules of one name share a node.
- `Graph.attach`: the rules with the neighbours that the graph gives them.
- `Graph.dangling`: the mentions of undefined names.
-/

namespace GrammarAudit

/-- A rule in the graph: the names it mentions and the rules that mention it, each in the order
of first mention. -/
structure Node where
  name : String
  kind : Kind
  references : List String
  referencedBy : List String
deriving DecidableEq, Repr

/-- The reference graph of a grammar. -/
structure Graph where
  nodes : List Node
deriving DecidableEq, Repr

/-- A mention of a name that no rule defines, at the place of the rule that makes it. -/
structure DanglingRecord (Txt Num : Type) where
  rule : Txt
  name : Txt
  line : Num
  column : Num
deriving DecidableEq, Repr

/-- A mention of an undefined name in a grammar. -/
abbrev Dangling := DanglingRecord String Int

namespace Graph

/-- The node of a name. -/
def node? (g : Graph) (name : String) : Option Node :=
  g.nodes.find? fun node => node.name = name

/-- Whether a name is defined. -/
def defines (g : Graph) (name : String) : Bool :=
  (g.node? name).isSome

/-- The names that a name mentions; an undefined one mentions none. -/
def referencesOf (g : Graph) (name : String) : List String :=
  match g.node? name with
  | some node => node.references
  | none => []

/-- The node that the rules of one name share. The last of them gives the kind. -/
def nodeOf (rules : List Rule) (name : String) : Node :=
  let own := rules.filter fun rule => rule.name = name
  { name := name
    kind := (own.getLast?.map RuleRecord.kind).getD .parser
    references := distinct (own.flatMap RuleRecord.references)
    referencedBy := distinct
      ((rules.filter fun rule => name ∈ rule.references).map RuleRecord.name) }

/-- The graph of a list of rules. -/
def ofRules (rules : List Rule) : Graph :=
  ⟨(distinct (rules.map RuleRecord.name)).map (nodeOf rules)⟩

/-- A rule with the neighbours that the graph gives it; a rule that is no node keeps its own. -/
def attachOne (g : Graph) (rule : Rule) : Rule :=
  match g.node? rule.name with
  | some node => { rule with references := node.references, referencedBy := node.referencedBy }
  | none => rule

/-- The rules with the neighbours that the graph gives them. -/
def attach (g : Graph) (rules : List Rule) : List Rule :=
  rules.map g.attachOne

/-- The undefined names that each rule has to find a rule for. -/
def dangling (g : Graph) (rules : List Rule) : List Dangling :=
  rules.flatMap fun rule =>
    ((Grammar.symbolReferences rule.text.toList).filter fun name => !g.defines name).map
      fun name => ⟨rule.name, name, rule.line, rule.column⟩

/-- A short description of a graph. -/
def describe (g : Graph) : String :=
  "ReferenceGraph(" ++ Text.decimal g.nodes.length ++ " nodes)"

end Graph

end GrammarAudit
