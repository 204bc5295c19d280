import GrammarAudit.Grammar.Definition

/-!
# Terminators and contexts

How the search for a rule terminator acts on a text that is put together from parts. The context
after a prefix is all that the search remembers of it, so a part without a terminator is passed
over and a terminator that has been found does not depend on what follows.

- `splitTerminator_append`: passing over a part that holds no terminator.
- `Closed`: a text that can be the body of a rule.
- `splitTerminator_code_iff`: the search finds exactly the closed text before a semicolon.
- `IsPlain`: a character that leaves code in code and ends nothing.
-/

namespace GrammarAudit.Grammar

open Text

/-! ## Contexts along a text -/

@[simp] theorem Context.after_nil (context : Context) : context.after [] = context := rfl

@[simp] theorem Context.after_cons (context : Context) (c : Char) (s : List Char) :
    context.after (c :: s) = (context.step c).after s := rfl

theorem Context.after_append (context : Context) (s t : List Char) :
    context.after (s ++ t) = (context.after s).after t :=
  List.foldl_append

/-! ## The first terminator -/

theorem splitTerminator_cons_eq_none_iff {context : Context} {c : Char} {s : List Char} :
    splitTerminator context (c :: s) = none ↔
      ¬(context = .code ∧ c = ';') ∧ splitTerminator (context.step c) s = none := by
  rw [splitTerminator]
  split
  · next hc => simp [hc]
  · next hc => simp [hc]

/-- A part without a terminator is passed over. -/
theorem splitTerminator_append {context : Context} {u : List Char}
    (h : splitTerminator context u = none) (s : List Char) :
    splitTerminator context (u ++ s) =
      (splitTerminator (context.after u) s).map fun (body, tail) => (u ++ body, tail) := by
  induction u generalizing context with
  | nil => simp
  | cons c u ih =>
    obtain ⟨hc, hu⟩ := splitTerminator_cons_eq_none_iff.mp h
    rw [List.cons_append, splitTerminator, if_neg hc, ih hu, Option.map_map]
    rfl

/-- A terminator that has been found stays where it is when the text goes on. -/
theorem splitTerminator_append_of_some {context : Context} {s body tail : List Char}
    (h : splitTerminator context s = some (body, tail)) (t : List Char) :
    splitTerminator context (s ++ t) = some (body, tail ++ t) := by
  induction s generalizing context body with
  | nil => cases h
  | cons c s ih =>
    unfold splitTerminator at h
    rw [List.cons_append, splitTerminator]
    split at h
    · next hc =>
      cases h
      rw [if_pos hc]
    · next hc =>
      obtain ⟨⟨body', tail'⟩, hs, heq⟩ := Option.map_eq_some_iff.mp h
      cases heq
      rw [if_neg hc, ih hs]
      rfl

/-- What is found: the text up to a semicolon in code, and no earlier one. -/
theorem splitTerminator_eq_some_iff {context : Context} {s body tail : List Char} :
    splitTerminator context s = some (body, tail) ↔
      splitTerminator context body = none ∧ context.after body = .code ∧
        s = body ++ ';' :: tail := by
  constructor
  · intro h
    induction s generalizing context body with
    | nil => cases h
    | cons c s ih =>
      unfold splitTerminator at h
      split at h
      · next hc =>
        cases h
        exact ⟨rfl, hc.1, by rw [hc.2]; rfl⟩
      · next hc =>
        obtain ⟨⟨body', tail'⟩, hs, heq⟩ := Option.map_eq_some_iff.mp h
        cases heq
        obtain ⟨hnone, hcode, rfl⟩ := ih hs
        exact ⟨splitTerminator_cons_eq_none_iff.mpr ⟨hc, hnone⟩, hcode, rfl⟩
  · rintro ⟨hnone, hcode, rfl⟩
    rw [splitTerminator_append hnone, hcode, splitTerminator, if_pos ⟨rfl, rfl⟩]
    simp

/-- A text that can be the body of a rule: no semicolon of it stands in code, and code is where it
ends. -/
def Closed (body : List Char) : Prop :=
  splitTerminator .code body = none ∧ Context.code.after body = .code

/-- From code on, the search finds exactly the closed text before a semicolon. -/
theorem splitTerminator_code_iff {s body tail : List Char} :
    splitTerminator .code s = some (body, tail) ↔ Closed body ∧ s = body ++ ';' :: tail := by
  rw [splitTerminator_eq_some_iff, Closed, and_assoc]

theorem Closed.append {u v : List Char} (hu : Closed u) (hv : Closed v) : Closed (u ++ v) := by
  constructor
  · rw [splitTerminator_append hu.1, hu.2, hv.1]
    rfl
  · rw [Context.after_append, hu.2, hv.2]

/-! ## Plain characters -/

/-- A character that opens no enclosure and ends no rule. -/
def IsPlain (c : Char) : Prop :=
  Context.code.step c = .code ∧ c ≠ ';'

/-- Plain characters make a closed text. -/
theorem closed_of_plain {u : List Char} (h : ∀ c ∈ u, IsPlain c) : Closed u := by
  induction u with
  | nil => exact ⟨rfl, rfl⟩
  | cons c u ih =>
    obtain ⟨hstep, hc⟩ := h c (List.mem_cons_self ..)
    obtain ⟨hnone, hcode⟩ := ih fun d hd => h d (List.mem_cons_of_mem _ hd)
    constructor
    · exact splitTerminator_cons_eq_none_iff.mpr ⟨fun hh => hc hh.2, hstep.symm ▸ hnone⟩
    · rw [Context.after_cons, hstep, hcode]

/-- The characters that are not plain are five marks. -/
theorem isPlain_of_ne {c : Char} (quote : c ≠ '\'') (double : c ≠ '"') (set : c ≠ '[')
    (block : c ≠ '{') (stop : c ≠ ';') : IsPlain c := by
  refine ⟨?_, stop⟩
  have hq : isQuote c = false := by simp [isQuote, quote, double]
  simp [Context.step, hq, set, block]

theorem isPlain_of_isIdentChar {c : Char} (h : isIdentChar c = true) : IsPlain c := by
  apply isPlain_of_ne <;> rintro rfl <;> revert h <;> decide

theorem isPlain_of_isBlank {c : Char} (h : isBlank c = true) : IsPlain c := by
  apply isPlain_of_ne <;> rintro rfl <;> revert h <;> decide

theorem isPlain_colon : IsPlain ':' := by
  apply isPlain_of_ne <;> decide

end GrammarAudit.Grammar
