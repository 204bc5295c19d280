import GrammarAudit.Grammar.Alternative
import GrammarAudit.Rule
import GrammarAudit.Text.Numeral

/-!
# Ambiguity hints

Alternatives of a parser rule that start with the same token, up to case, may be ambiguous.
Alternatives that start with neither a literal nor an identifier are never grouped.

- `HintRecord`, `Hint`: the finding.
- `groupByToken`: the positions of the alternatives that start with each token.
- `ambiguityHints`: the hints of all parser rules, in order.
-/

namespace GrammarAudit

open Grammar

/-- Alternatives of a rule, counted from zero, that start with the same token. -/
structure HintRecord (Txt Num : Type) where
  rule : Txt
  line : Num
  alternatives : List Num
  commonTokens : List Txt
  description : Txt
deriving DecidableEq, Repr

/-- An ambiguity hint for a rule of a grammar. -/
abbrev Hint := HintRecord String Int

/-- The positions in a list, counted from zero, at which a key stands. -/
def positionsOf (keys : List String) (key : String) : List Nat :=
  (keys.zipIdx.filter fun entry => entry.1 = key).map Prod.snd

/-- The first tokens of the alternatives in order of appearance, each with the positions of the
alternatives that start with it. -/
def groupByToken (alternatives : List (List Char)) : List (String × List Nat) :=
  let keys := alternatives.map tokenKey
  (distinct keys).map fun key => (key, positionsOf keys key)

/-- The hint for alternatives that start with a token. -/
def Hint.ofGroup (rule : Rule) (token : String) (positions : List Nat) : Hint :=
  { rule := rule.name
    line := rule.line
    alternatives := positions.map fun i : Nat => (i : Int)
    commonTokens := [token]
    description := "Alternatives " ++
      ", ".intercalate (positions.map fun i : Nat => Text.decimal (i + 1)) ++
      " start with the same token '" ++ token ++ "', which may cause ambiguity." }

/-- The hints for one rule, in the order of their first alternatives. -/
def hintsOf (rule : Rule) : List Hint :=
  if rule.kind = .parser then
    ((groupByToken (splitAlternatives rule.text.toList)).filter fun (token, positions) =>
      token ≠ "" && 2 ≤ positions.length).map fun (token, positions) =>
        Hint.ofGroup rule token positions
  else []

/-- The hints of all parser rules. -/
def ambiguityHints (rules : List Rule) : List Hint :=
  rules.flatMap hintsOf

end GrammarAudit
