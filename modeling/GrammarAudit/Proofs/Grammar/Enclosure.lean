import GrammarAudit.Grammar.Reference
import GrammarAudit.Proofs.Text.Stretch

/-!
# What follows an enclosure

Passing over an enclosure leaves an end of the text.

- `afterLiteral_suffix`, `afterCharSet_suffix`, `afterBlock_suffix`: the three kinds.
- `enclosure?_cases`: the kinds of enclosures.
- `enclosure?_consuming`: an enclosure covers the character at which it is found.
- `enclosure?_eq_none_iff`: what a character is that begins none.
-/

namespace GrammarAudit.Grammar

open Text

theorem afterLiteral_suffix (mark : Char) (s : List Char) : afterLiteral mark s <:+ s := by
  fun_induction afterLiteral mark s with
  | case1 => exact List.suffix_refl _
  | case2 => exact List.nil_suffix
  | case3 d rest ih => exact ih.trans ((List.suffix_cons d rest).trans (List.suffix_cons _ _))
  | case4 rest => exact List.suffix_cons _ rest
  | case5 rest => exact List.suffix_refl _
  | case6 c rest _ _ _ _ ih => exact ih.trans (List.suffix_cons c rest)

theorem afterCharSet_suffix (s : List Char) : afterCharSet s <:+ s := by
  fun_induction afterCharSet s with
  | case1 => exact List.suffix_refl _
  | case2 => exact List.nil_suffix
  | case3 d rest ih => exact ih.trans ((List.suffix_cons d rest).trans (List.suffix_cons _ _))
  | case4 rest => exact List.suffix_cons _ rest
  | case5 c rest _ _ _ ih => exact ih.trans (List.suffix_cons c rest)

theorem afterBlock_suffix (depth : Int) (s : List Char) : afterBlock depth s <:+ s := by
  fun_induction afterBlock depth s with
  | case1 => exact List.suffix_refl _
  | case2 depth rest ih => exact ih.trans (List.suffix_cons _ rest)
  | case3 rest => exact List.suffix_cons _ rest
  | case4 depth rest _ _ ih => exact ih.trans (List.suffix_cons _ rest)
  | case5 depth c rest _ _ ih => exact ih.trans (List.suffix_cons c rest)

/-- The kinds of enclosures, by the marks that they begin with. -/
theorem enclosure?_cases {lineStart : Bool} {c : Char} {rest tail : List Char}
    (h : enclosure? lineStart (c :: rest) = some tail) :
    (isQuote c = true ∧ tail = afterLiteral c rest) ∨
      (c = '[' ∧ tail = afterCharSet rest) ∨
      (c = '{' ∧ tail = afterBlock 1 rest) ∨
      (∃ line, c :: rest = '/' :: '/' :: line ∧ tail = line.dropWhile (· != '\n')) ∨
      ∃ body, c :: rest = '/' :: '*' :: body ∧ tail = (afterFirst? ['*', '/'] body).getD [] := by
  unfold enclosure? at h
  split at h
  · cases h
  next d t heq =>
  obtain ⟨rfl, rfl⟩ := List.cons.inj heq
  split at h
  next hquote => exact .inl ⟨hquote, (Option.some.inj h).symm⟩
  split at h
  next hset => exact .inr (.inl ⟨hset, (Option.some.inj h).symm⟩)
  split at h
  next hblock => exact .inr (.inr (.inl ⟨hblock, (Option.some.inj h).symm⟩))
  split at h
  next hline =>
    obtain ⟨line, rfl⟩ := List.head?_eq_some_iff.mp hline.2
    exact .inr (.inr (.inr (.inl ⟨line, by rw [hline.1], (Option.some.inj h).symm⟩)))
  split at h
  next hcomment =>
    obtain ⟨body, rfl⟩ := List.head?_eq_some_iff.mp hcomment.2
    exact .inr (.inr (.inr (.inr ⟨body, by rw [hcomment.1], (Option.some.inj h).symm⟩)))
  · cases h

/-- An enclosure covers the character at which it is found. -/
theorem enclosure?_consuming : Pattern.Consuming enclosure? := by
  intro lineStart c rest tail h
  rcases enclosure?_cases h with ⟨-, rfl⟩ | ⟨-, rfl⟩ | ⟨-, rfl⟩ | ⟨line, hline, rfl⟩ |
    ⟨body, hbody, rfl⟩
  · exact afterLiteral_suffix c rest
  · exact afterCharSet_suffix rest
  · exact afterBlock_suffix 1 rest
  · rw [(List.cons.inj hline).2]
    exact (List.dropWhile_suffix _).trans (List.suffix_cons _ line)
  · rw [(List.cons.inj hbody).2]
    cases hclose : afterFirst? ['*', '/'] body with
    | none => exact List.nil_suffix
    | some tail => exact (afterFirst?_suffix hclose).trans (List.suffix_cons _ body)

/-- Where no enclosure is found none begins: no quote, no bracket, no brace, no comment mark. -/
theorem enclosure?_eq_none_iff {lineStart : Bool} {c : Char} {rest : List Char} :
    enclosure? lineStart (c :: rest) = none ↔
      isQuote c = false ∧ c ≠ '[' ∧ c ≠ '{' ∧
        (c = '/' → rest.head? ≠ some '/' ∧ rest.head? ≠ some '*') := by
  unfold enclosure?
  grind

theorem of_enclosure?_eq_none {lineStart : Bool} {c : Char} {rest : List Char}
    (h : enclosure? lineStart (c :: rest) = none) : isQuote c = false ∧ c ≠ '{' := by
  obtain ⟨hquote, -, hblock, -⟩ := enclosure?_eq_none_iff.mp h
  exact ⟨hquote, hblock⟩

end GrammarAudit.Grammar
