import GrammarAudit.Proofs.Grammar.UnitEnd
import Mathlib.Data.List.Infix

/-!
# Two ways to drop action blocks

`withoutActions` counts the open braces and keeps the characters at depth zero. A walk over the
positions can drop the blocks one by one instead, each from its opening brace to the position behind
it. As long as no brace is closed that was not opened, both keep the same characters: within a block
that begins at depth zero, the depth of the count is the depth that the search for its end counts.

- `unblockedFrom`: the walk that drops block by block.
- `NeverBelow`: a text that closes no more blocks than are open.
- `outsideBlocks_open`, `NeverBelow.afterBlock`: the count and the condition across a block.
- `withoutActions_eq_unblockedFrom`: the two ways agree.
-/

namespace GrammarAudit.Grammar

/-- The characters from a position on that the walk keeps. At an opening brace it goes on behind the
block, which runs to the end of the text if it is not closed. -/
def unblockedFrom (s : List Char) (pos : Nat) : List Char :=
  match h : s[pos]? with
  | none => []
  | some c =>
    if hopen : c = '{' then unblockedFrom s (blockEnd s pos)
    else c :: unblockedFrom s (pos + 1)
termination_by s.length - pos
decreasing_by
  · have hadvances := advances_blockEnd (h.trans (congrArg some hopen))
    have hforward := hadvances.forward
    have hinside := hadvances.inside
    omega
  · have hlt := (List.getElem?_eq_some_iff.mp h).1
    omega

/-- From the start of a text on, no more blocks are closed than opened, given how many are open
before it. -/
def NeverBelow (depth : Nat) (s : List Char) : Prop :=
  ∀ p, p <+: s → p.count '}' ≤ depth + p.count '{'

namespace NeverBelow

variable {depth : Nat} {c : Char} {s : List Char}

theorem opening (h : NeverBelow depth ('{' :: s)) : NeverBelow (depth + 1) s := by
  intro p hp
  have hcount := h ('{' :: p) (List.cons_prefix_cons.mpr ⟨rfl, hp⟩)
  rw [List.count_cons_of_ne (by decide), List.count_cons_self] at hcount
  omega

theorem closing (h : NeverBelow (depth + 1) ('}' :: s)) : NeverBelow depth s := by
  intro p hp
  have hcount := h ('}' :: p) (List.cons_prefix_cons.mpr ⟨rfl, hp⟩)
  rw [List.count_cons_self, List.count_cons_of_ne (by decide)] at hcount
  omega

theorem not_closing : ¬NeverBelow 0 ('}' :: s) := by
  intro h
  have hcount := h ['}'] (List.prefix_append ['}'] s)
  exact absurd hcount (by decide)

theorem plain (hopen : c ≠ '{') (hclose : c ≠ '}') (h : NeverBelow depth (c :: s)) :
    NeverBelow depth s := by
  intro p hp
  have hcount := h (c :: p) (List.cons_prefix_cons.mpr ⟨rfl, hp⟩)
  rwa [List.count_cons_of_ne hopen, List.count_cons_of_ne hclose] at hcount

/-- Behind the block that brings the number of open ones down to zero, no more blocks are closed
than opened either. -/
theorem afterBlock (h : NeverBelow (depth + 1) s) :
    NeverBelow 0 (Grammar.afterBlock (depth + 1) s) := by
  induction s generalizing depth with
  | nil =>
    intro p hp
    rw [List.prefix_nil.mp hp]
    exact Nat.le_refl _
  | cons c rest ih =>
    rw [Grammar.afterBlock]
    by_cases hopen : c = '{'
    · subst hopen
      exact ih h.opening
    by_cases hclose : c = '}'
    · subst hclose
      rw [if_neg hopen, if_pos rfl]
      cases depth with
      | zero => exact h.closing
      | succ depth =>
        have hne : ((depth + 1 : Nat) : Int) + 1 ≠ 1 := by omega
        rw [if_neg hne, Int.add_sub_cancel]
        exact ih h.closing
    · rw [if_neg hopen, if_neg hclose]
      exact ih (h.plain hopen hclose)

end NeverBelow

/-- In open blocks the count keeps nothing up to the end of the outermost one. -/
theorem outsideBlocks_open (depth : Nat) (s : List Char) :
    outsideBlocks (depth + 1) s = outsideBlocks 0 (afterBlock (depth + 1) s) := by
  induction s generalizing depth with
  | nil => rfl
  | cons c rest ih =>
    rw [outsideBlocks, afterBlock]
    by_cases hopen : c = '{'
    · subst hopen
      exact ih (depth + 1)
    by_cases hclose : c = '}'
    · subst hclose
      rw [if_neg hopen, if_pos rfl, if_neg hopen, if_pos rfl, Int.add_sub_cancel]
      cases depth with
      | zero => rfl
      | succ depth =>
        have hne : ((depth + 1 : Nat) : Int) + 1 ≠ 1 := by omega
        rw [if_neg hne]
        exact ih depth
    · have hdepth : (depth : Int) + 1 ≠ 0 := by omega
      rw [if_neg hopen, if_neg hclose, if_neg hdepth, if_neg hopen, if_neg hclose]
      exact ih depth

/-- From any position at depth zero the walk keeps what the count keeps. -/
theorem unblockedFrom_eq_outsideBlocks {s : List Char} {pos : Nat}
    (h : NeverBelow 0 (s.drop pos)) : unblockedFrom s pos = outsideBlocks 0 (s.drop pos) := by
  fun_induction unblockedFrom s pos with
  | case1 pos hget =>
    rw [List.drop_eq_nil_of_le (List.getElem?_eq_none_iff.mp hget)]
    rfl
  | case2 pos hget ih =>
    -- the block is one that the count enters at depth zero
    have hdrop := drop_of_getElem? hget
    obtain ⟨-, hbehind⟩ := advances_of_suffix hdrop (afterBlock_suffix 1 _)
    rw [hdrop] at h
    rw [blockEnd_of_drop hdrop, hbehind] at ih
    rw [blockEnd_of_drop hdrop, ih h.opening.afterBlock, hdrop]
    exact (outsideBlocks_open 0 _).symm
  | case3 pos c hget hopen ih =>
    rw [drop_of_getElem? hget] at h ⊢
    have hclose : c ≠ '}' := by
      rintro rfl
      exact NeverBelow.not_closing h
    rw [ih (h.plain hopen hclose), outsideBlocks, if_neg hopen, if_neg hclose, if_pos rfl]

/-- **Two ways to drop action blocks agree.** In a text of which no part from the start on closes
more blocks than it opens, the characters at depth zero are those that are left when a walk from the
left drops the block at each opening brace that it meets, up to its end or that of the text. -/
theorem withoutActions_eq_unblockedFrom {s : List Char}
    (h : ∀ p, p <+: s → p.count '}' ≤ p.count '{') : withoutActions s = unblockedFrom s 0 := by
  have hnever : NeverBelow 0 (s.drop 0) := by
    intro p hp
    rw [Nat.zero_add]
    exact h p hp
  exact (unblockedFrom_eq_outsideBlocks hnever).symm

/-- A block in another one, and a last block that is not closed. -/
theorem withoutActions_eq_unblockedFrom_nested :
    let s := "a \x7bb \x7bc\x7d d\x7d e \x7bf".toList
    (∀ p, p <+: s → p.count '}' ≤ p.count '{') ∧
      withoutActions s = "a  e ".toList ∧ unblockedFrom s 0 = "a  e ".toList := by
  intro s
  have hall : s.inits.all (fun p => p.count '}' ≤ p.count '{') = true := by decide +kernel
  have hnever : ∀ p, p <+: s → p.count '}' ≤ p.count '{' := fun p hp =>
    of_decide_eq_true (List.all_eq_true.mp hall p ((List.mem_inits p s).mpr hp))
  have hkept : withoutActions s = "a  e ".toList := by decide +kernel
  exact ⟨hnever, hkept, (withoutActions_eq_unblockedFrom hnever).symm.trans hkept⟩

end GrammarAudit.Grammar
