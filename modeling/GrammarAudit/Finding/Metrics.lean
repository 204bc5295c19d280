import GrammarAudit.Finding.Grade
import GrammarAudit.Grammar.Alternative
import GrammarAudit.Graph.Recursion

/-!
# Complexity metrics

The figures of each rule, the most complex rules first.

- `MetricsRecord`, `Metrics`: the figures, the weighted value and its grade.
- `estimateLookahead`: how many tokens the choice between alternatives may take.
- `Metrics.ofRule`: the figures of one rule.
- `complexity`: the figures of all rules, by falling value.
-/

namespace GrammarAudit

open Grammar

/-- The figures of a rule. -/
structure MetricsRecord (Txt Num : Type) where
  name : Txt
  kind : Kind
  line : Num
  depth : Num
  alternatives : Num
  referenceCount : Num
  directlyRecursive : Bool
  indirectlyRecursive : Bool
  lookahead : Num
  grade : Grade
  value : Num
deriving DecidableEq, Repr

/-- The figures of a rule of a grammar. -/
abbrev Metrics := MetricsRecord String Int

/-! ## Lookahead -/

/-- The lookahead of every choice. -/
def baseLookahead : Int := 1

/-- The additional lookahead of alternatives that share a first token. -/
def sharedTokenLookahead : Int := 2

/-- The largest lookahead before optional elements and nesting are counted. -/
def sharedTokenLimit : Int := 5

/-- The nesting beyond which a rule needs more lookahead. -/
def shallowNesting : Int := 2

/-- The largest lookahead. -/
def lookaheadLimit : Int := 10

/-- Whether two of the alternatives start with the same token, or with none. -/
def sharesToken (alternatives : List (List Char)) : Bool :=
  (distinct (alternatives.map tokenKey)).length < alternatives.length

/-- Whether a rule has an optional or repeated element, or a literal that looks like one. -/
def hasOptional (ruleText : List Char) : Bool :=
  '?' ∈ ruleText || '*' ∈ ruleText

/-- The estimated number of tokens that a rule has to look ahead. -/
def estimateLookahead (ruleText : List Char) : Int :=
  let alternatives := splitAlternatives ruleText
  let shared :=
    if 1 < alternatives.length && sharesToken alternatives then
      min (baseLookahead + sharedTokenLookahead) sharedTokenLimit
    else baseLookahead
  let optional := if hasOptional ruleText then 1 else 0
  let depth := nestingDepth ruleText
  let nested := if shallowNesting < depth then depth / 2 else 0
  min (shared + optional + nested) lookaheadLimit

/-! ## Metrics -/

/-- The figures of a rule. -/
def Metrics.ofRule (g : Graph) (thresholds : Thresholds) (rule : Rule) : Metrics :=
  let text := rule.text.toList
  let depth := nestingDepth text
  let referenceCount := (g.referencesOf rule.name).length
  let lookahead := estimateLookahead text
  let direct := g.isDirect rule.name
  let indirect := g.isIndirect rule.name
  let value :=
    complexityValue depth rule.alternativeCount referenceCount lookahead direct indirect
  { name := rule.name
    kind := rule.kind
    line := rule.line
    depth := depth
    alternatives := rule.alternativeCount
    referenceCount := referenceCount
    directlyRecursive := direct
    indirectlyRecursive := indirect
    lookahead := lookahead
    grade := GrammarAudit.grade thresholds value
    value := value }

/-- The figures of all rules by falling value; rules of one value keep their order. -/
def complexity (rules : List Rule) (g : Graph) (thresholds : Thresholds) : List Metrics :=
  (rules.map (Metrics.ofRule g thresholds)).mergeSort fun a b => b.value ≤ a.value

/-- Whether some rule cannot be graded. -/
def complexityOverflows (rules : List Rule) (g : Graph) (thresholds : Thresholds) : Bool :=
  (complexity rules g thresholds).any fun m => gradeOverflows thresholds m.value

end GrammarAudit
