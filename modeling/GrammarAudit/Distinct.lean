/-!
# Lists without repeats

- `firstPerKey`: the first entry of each key, in order.
- `distinct`: a list with later repeats dropped.
-/

namespace GrammarAudit

universe u v

/-- The first entry of each key, in the order of the list. -/
def firstPerKey {α : Type u} {β : Type v} [DecidableEq β] (key : α → β) : List α → List α
  | [] => []
  | a :: rest => a :: (firstPerKey key rest).filter fun b => key b ≠ key a

/-- The entries of a list in order, without later repeats. -/
def distinct {α : Type u} [DecidableEq α] (l : List α) : List α :=
  firstPerKey id l

end GrammarAudit
