import GrammarAudit.Grammar.Identifier
import GrammarAudit.Proofs.Grammar.Enclosure

/-!
# Positions behind units

A literal, a character set, an action block or an identifier ends at a position that lies behind its
first character and not behind the end of the text, whether the unit is closed or not. What the text
holds from there on is what follows the unit.

- `Advances`: a later position that is still in the text or at its end.
- `advances_of_suffix`: the position at which a part of the text begins.
- `advances_identifierEnd`, `advances_literalEnd?`, `advances_charSetEnd`, `advances_blockEnd`: the
  four kinds of ends.
- `opensUnit`, `unitEnd?`, `unitEnd?_eq_some`: literals, sets and blocks at once.
-/

namespace GrammarAudit.Grammar

open Text

/-- A later position that is still in the text or at its end. -/
structure Advances (s : List Char) (pos stop : Nat) : Prop where
  forward : pos < stop
  inside : stop ≤ s.length

variable {s rest tail : List Char} {pos : Nat} {c : Char}

/-- What follows some of the characters behind a position begins at a later one. -/
theorem advances_of_suffix (h : s.drop pos = c :: rest) (htail : tail <:+ rest) :
    Advances s pos (s.length - tail.length) ∧ s.drop (s.length - tail.length) = tail := by
  have hlength : s.length - pos = rest.length + 1 := by
    rw [← List.length_drop, h, List.length_cons]
  have hle : tail.length ≤ rest.length := htail.length_le
  refine ⟨⟨by omega, Nat.sub_le _ _⟩, ?_⟩
  have hsuffix : tail <:+ s := by
    refine htail.trans ((List.suffix_cons c rest).trans ?_)
    rw [← h]
    exact List.drop_suffix pos s
  exact (List.suffix_iff_eq_drop.mp hsuffix).symm

theorem drop_succ_of_drop (h : s.drop pos = c :: rest) : s.drop (pos + 1) = rest := by
  rw [← List.tail_drop, h, List.tail_cons]

theorem drop_of_getElem? (h : s[pos]? = some c) : s.drop pos = c :: s.drop (pos + 1) := by
  obtain ⟨hlt, rfl⟩ := List.getElem?_eq_some_iff.mp h
  exact List.drop_eq_getElem_cons hlt

theorem getElem?_of_drop_eq_cons (h : s.drop pos = c :: rest) : s[pos]? = some c := by
  rw [← List.head?_drop, h, List.head?_cons]

/-! ## The four kinds of ends -/

theorem literalEnd?_of_drop (h : s.drop pos = c :: rest) :
    literalEnd? s pos = some (s.length - (afterLiteral c rest).length) := by
  rw [literalEnd?, h]

theorem charSetEnd_of_drop (h : s.drop pos = c :: rest) :
    charSetEnd s pos = s.length - (afterCharSet rest).length := by
  rw [charSetEnd, drop_succ_of_drop h]

theorem blockEnd_of_drop (h : s.drop pos = '{' :: rest) :
    blockEnd s pos = s.length - (afterBlock 1 rest).length := by
  rw [blockEnd, h]
  rfl

theorem advances_identifierEnd (h : pos < s.length) : Advances s pos (identifierEnd s pos) := by
  have hrun : ((s.drop pos).takeWhile isIdentChar).length ≤ s.length - pos := by
    rw [← List.length_drop]
    exact (List.takeWhile_sublist _).length_le
  unfold identifierEnd
  exact ⟨by omega, by omega⟩

theorem advances_literalEnd? (h : s[pos]? = some c) :
    ∃ stop, literalEnd? s pos = some stop ∧ Advances s pos stop := by
  have hdrop := drop_of_getElem? h
  exact ⟨_, literalEnd?_of_drop hdrop, (advances_of_suffix hdrop (afterLiteral_suffix _ _)).1⟩

theorem advances_charSetEnd (h : s[pos]? = some c) : Advances s pos (charSetEnd s pos) := by
  have hdrop := drop_of_getElem? h
  rw [charSetEnd_of_drop hdrop]
  exact (advances_of_suffix hdrop (afterCharSet_suffix _)).1

theorem advances_blockEnd (h : s[pos]? = some '{') : Advances s pos (blockEnd s pos) := by
  have hdrop := drop_of_getElem? h
  rw [blockEnd_of_drop hdrop]
  exact (advances_of_suffix hdrop (afterBlock_suffix _ _)).1

/-! ## Units of any kind -/

/-- A character that opens a literal, a character set or an action block. -/
def opensUnit (c : Char) : Bool :=
  isQuote c || c = '[' || c = '{'

theorem opensUnit_of_isQuote (h : isQuote c = true) : opensUnit c = true := by
  simp [opensUnit, h]

theorem not_isIdentChar_of_opensUnit (h : opensUnit c = true) : isIdentChar c = false := by
  have hmarks : c = '\'' ∨ c = '"' ∨ c = '[' ∨ c = '{' := by
    simpa [opensUnit, isQuote, or_assoc] using h
  rcases hmarks with rfl | rfl | rfl | rfl <;> decide

/-- The position after the literal, character set or action block that begins at a position. There
is none where no unit begins, and none past the end of the text. -/
def unitEnd? (s : List Char) (pos : Nat) : Option Nat := do
  let c ← s[pos]?
  if isQuote c then literalEnd? s pos
  else if c = '[' then some (charSetEnd s pos)
  else if c = '{' then some (blockEnd s pos)
  else none

/-- A unit ends where what follows the enclosure begins. -/
theorem unitEnd?_eq_some (h : s.drop pos = c :: rest) (hopens : opensUnit c = true) :
    ∃ tail, enclosure? true (c :: rest) = some tail ∧
      unitEnd? s pos = some (s.length - tail.length) := by
  rw [unitEnd?, getElem?_of_drop_eq_cons h, Option.bind_eq_bind, Option.bind_some]
  by_cases hquote : isQuote c = true
  · exact ⟨afterLiteral c rest, by rw [enclosure?, if_pos hquote],
      by rw [if_pos hquote, literalEnd?_of_drop h]⟩
  by_cases hset : c = '['
  · exact ⟨afterCharSet rest, by rw [enclosure?, if_neg hquote, if_pos hset],
      by rw [if_neg hquote, if_pos hset, charSetEnd_of_drop h]⟩
  · obtain rfl : c = '{' := by simpa [opensUnit, hquote, hset] using hopens
    exact ⟨afterBlock 1 rest, by rw [enclosure?, if_neg hquote, if_neg hset, if_pos rfl],
      by rw [if_neg hquote, if_neg hset, if_pos rfl, blockEnd_of_drop h]⟩

end GrammarAudit.Grammar
