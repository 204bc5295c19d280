import GrammarAudit.Grammar.Reference
import GrammarAudit.Proofs.Distinct
import GrammarAudit.Proofs.Grammar.CharClass

/-!
# Identifiers by a scan

The identifiers of a text are found from left to right: one starts at every identifier start that
follows no word character. Whether one does is all that the scan remembers of what it has passed.

- `identifiersFrom`: the scan, and `identifiers_eq` that it finds what `identifiers` does.
- `wordAfter`: whether a word character precedes what follows a text.
- `mem_identifiersFrom_append`: passing over a part of the text loses nothing behind it.
- `mem_names`: the names of a text are its identifiers without the reserved words.
-/

namespace GrammarAudit.Grammar

open Text

/-! ## The scan -/

/-- The identifiers of a text, given whether a word character precedes it. -/
def identifiersFrom : Bool → List Char → List String
  | _, [] => []
  | afterWord, c :: rest =>
    if !afterWord && isIdentStart c then
      String.ofList (c :: rest.takeWhile isIdentChar) :: identifiersFrom true rest
    else
      identifiersFrom (isWordPart c) rest

/-- Whether a word character precedes what follows a text. -/
def wordAfter (afterWord : Bool) (s : List Char) : Bool :=
  s.foldl (fun _ c => isWordPart c) afterWord

@[simp] theorem wordAfter_cons (afterWord : Bool) (c : Char) (s : List Char) :
    wordAfter afterWord (c :: s) = wordAfter (isWordPart c) s := rfl

@[simp] theorem wordAfter_concat (afterWord : Bool) (s : List Char) (c : Char) :
    wordAfter afterWord (s ++ [c]) = isWordPart c := by
  rw [wordAfter, List.foldl_append]
  rfl

theorem wordAfter_append (afterWord : Bool) (s t : List Char) :
    wordAfter afterWord (s ++ t) = wordAfter (wordAfter afterWord s) t :=
  List.foldl_append

theorem isWordPart_of_isIdentChar {c : Char} (h : isIdentChar c = true) : isWordPart c = true := by
  rw [isWordPart, h, Bool.true_or]

theorem identifiersFrom_true_cons (c : Char) (s : List Char) :
    identifiersFrom true (c :: s) = identifiersFrom (isWordPart c) s := rfl

theorem identifiersFrom_false_cons_of_start {c : Char} (hc : isIdentStart c = true)
    (s : List Char) :
    identifiersFrom false (c :: s) =
      String.ofList (c :: s.takeWhile isIdentChar) :: identifiersFrom true s := by
  simp [identifiersFrom, hc]

/-- A character at which no identifier starts is passed over. -/
theorem identifiersFrom_cons_of_not {c : Char} {afterWord : Bool}
    (h : ¬(isIdentStart c = true ∧ afterWord = false)) (s : List Char) :
    identifiersFrom afterWord (c :: s) = identifiersFrom (isWordPart c) s := by
  rw [identifiersFrom, if_neg]
  rw [Bool.and_eq_true, Bool.not_eq_true']
  exact fun hboth => h hboth.symm

theorem identifiersFrom_cons_of_not_start {c : Char} (hc : isIdentStart c = false)
    (afterWord : Bool) (s : List Char) :
    identifiersFrom afterWord (c :: s) = identifiersFrom (isWordPart c) s :=
  identifiersFrom_cons_of_not (fun h => Bool.eq_false_iff.mp hc h.1) s

theorem takeWhile_isIdentChar_word (s : List Char) :
    (s.takeWhile isWordPart).takeWhile isIdentChar = s.takeWhile isIdentChar := by
  induction s with
  | nil => rfl
  | cons c s ih =>
    by_cases hc : isIdentChar c = true
    · rw [List.takeWhile_cons_of_pos (isWordPart_of_isIdentChar hc),
        List.takeWhile_cons_of_pos hc, List.takeWhile_cons_of_pos hc, ih]
    · rw [List.takeWhile_cons_of_neg (l := s) hc]
      by_cases hword : isWordPart c = true
      · rw [List.takeWhile_cons_of_pos hword, List.takeWhile_cons_of_neg hc]
      · rw [List.takeWhile_cons_of_neg hword, List.takeWhile_nil]

/-- The first run of word characters starts the text, and the scan goes run by run. -/
theorem wordRuns_eq_cons (s : List Char) :
    ∃ runs, wordRuns s = s.takeWhile isWordPart :: runs ∧
      identifiersFrom true s = runs.filterMap leadingIdentifier? ∧
      identifiersFrom false s = (wordRuns s).filterMap leadingIdentifier? := by
  induction s with
  | nil => exact ⟨[], rfl, rfl, rfl⟩
  | cons c s ih =>
    obtain ⟨runs, hruns, htrue, hfalse⟩ := ih
    by_cases hword : isWordPart c = true
    · have hwords : wordRuns (c :: s) = (c :: s.takeWhile isWordPart) :: runs := by
        simp [wordRuns, hruns, hword]
      refine ⟨runs, ?_, ?_, ?_⟩
      · rw [hwords, List.takeWhile_cons_of_pos hword]
      · rw [identifiersFrom_true_cons, hword, htrue]
      · rw [hwords, List.filterMap_cons, leadingIdentifier?]
        by_cases hstart : isIdentStart c = true
        · rw [identifiersFrom_false_cons_of_start hstart, if_pos hstart,
            List.takeWhile_cons_of_pos (isIdentChar_of_isIdentStart hstart),
            takeWhile_isIdentChar_word, htrue]
        · rw [identifiersFrom_cons_of_not_start (Bool.not_eq_true _ ▸ hstart), hword, htrue,
            if_neg hstart]
    · have hstart : isIdentStart c = false := Bool.eq_false_iff.mpr fun h =>
        hword (isWordPart_of_isIdentChar (isIdentChar_of_isIdentStart h))
      have hwords : wordRuns (c :: s) = [] :: wordRuns s := by
        simp [wordRuns, hruns, hword]
      refine ⟨wordRuns s, ?_, ?_, ?_⟩
      · rw [hwords, List.takeWhile_cons_of_neg hword]
      · rw [identifiersFrom_cons_of_not_start hstart, Bool.eq_false_iff.mpr hword, hfalse]
      · rw [identifiersFrom_cons_of_not_start hstart, Bool.eq_false_iff.mpr hword, hfalse, hwords]
        rfl

/-- The scan finds the identifiers of a text. -/
theorem identifiers_eq (s : List Char) : identifiers s = identifiersFrom false s := by
  obtain ⟨-, -, -, hfalse⟩ := wordRuns_eq_cons s
  exact hfalse.symm

/-! ## Parts of a text -/

/-- A text that does not start with an identifier start does not depend on what precedes it. -/
theorem identifiersFrom_congr {s : List Char} (h : ∀ c t, s = c :: t → isIdentStart c = false)
    (a b : Bool) : identifiersFrom a s = identifiersFrom b s := by
  rcases s with - | ⟨c, s⟩
  · rfl
  · have hc := h c s rfl
    rw [identifiersFrom_cons_of_not_start hc, identifiersFrom_cons_of_not_start hc]

/-- Passing over a part of the text loses nothing behind it. -/
theorem mem_identifiersFrom_append {afterWord : Bool} {s t : List Char} {name : String}
    (h : name ∈ identifiersFrom (wordAfter afterWord s) t) :
    name ∈ identifiersFrom afterWord (s ++ t) := by
  induction s generalizing afterWord with
  | nil => exact h
  | cons c s ih =>
    rw [wordAfter_cons] at h
    have hrest := ih h
    rw [List.cons_append]
    unfold identifiersFrom
    split
    · next hc =>
      have hstart := (Bool.and_eq_true_iff.mp hc).2
      rw [isWordPart_of_isIdentChar (isIdentChar_of_isIdentStart hstart)] at hrest
      exact List.mem_cons_of_mem _ hrest
    · exact hrest

/-- The names of a text are its identifiers without the reserved words. -/
theorem mem_names {s : List Char} {name : String} :
    name ∈ names s ↔ name ∈ identifiersFrom false s ∧ isKeyword name = false := by
  rw [names, mem_distinct, List.mem_filter, identifiers_eq, Bool.not_eq_true']

end GrammarAudit.Grammar
