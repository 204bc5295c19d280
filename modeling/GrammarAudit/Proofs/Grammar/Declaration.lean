import GrammarAudit.Grammar.Discovery
import GrammarAudit.Proofs.Grammar.Heading
import GrammarAudit.Proofs.Text.Stretch

/-!
# Declarations in the text as written

Rules are located, and declarations as a fragment looked for, in the text as written, with its
comments. What these two searches find, said on the text alone.

- `lastIs`: what a search remembers of the text that it has passed.
- `DeclaredAsFragment`, `declaresFragment_iff`: a name after the word for fragments.
- `DeclaredAt`: a name that is declared at an offset of a text.
- `findDeclaration?_eq_some_iff`, `findDeclaration?_eq_none_iff`: the first such offset is found.
-/

namespace GrammarAudit.Grammar

open Text

/-! ## What has been passed -/

/-- Whether the last character of a text is of a class; `start` for the empty text. -/
def lastIs (p : Char → Bool) (start : Bool) (s : List Char) : Bool :=
  s.foldl (fun _ c => p c) start

@[simp] theorem lastIs_cons (p : Char → Bool) (start : Bool) (c : Char) (s : List Char) :
    lastIs p start (c :: s) = lastIs p (p c) s := rfl

theorem lastIs_append (p : Char → Bool) (start : Bool) (s t : List Char) :
    lastIs p start (s ++ t) = lastIs p (lastIs p start s) t :=
  List.foldl_append

/-! ## Declarations at the start of a text -/

theorem exists_blanks (s : List Char) : ∃ gap, AllBlank gap ∧ s = gap ++ trimStart s :=
  ⟨s.takeWhile isBlank, allBlank_takeWhile s, List.takeWhile_append_dropWhile.symm⟩

/-- A name is declared at the start of a text when blanks and a colon follow it. -/
theorem declares_iff {name s : List Char} :
    declares name s = true ↔ ∃ gap after, AllBlank gap ∧ s = name ++ (gap ++ ':' :: after) := by
  unfold declares
  constructor
  · intro h
    cases hrest : after? name s with
    | none =>
      rw [hrest] at h
      cases h
    | some rest =>
      rw [hrest] at h
      have hcolon : (trimStart rest).head? = some ':' := of_decide_eq_true h
      obtain ⟨after, hafter⟩ := List.head?_eq_some_iff.mp hcolon
      obtain ⟨gap, hgap, heq⟩ := exists_blanks rest
      exact ⟨gap, after, hgap, by rw [after?_eq_some_iff.mp hrest, ← hafter, ← heq]⟩
  · rintro ⟨gap, after, hgap, rfl⟩
    rw [after?_append]
    show decide ((trimStart (gap ++ ':' :: after)).head? = some ':') = true
    rw [trimStart_gap_colon hgap]
    rfl

/-- One or more blanks that are skipped come before the rest. -/
theorem exists_space_of_afterBlanks? {s rest : List Char} (h : afterBlanks? s = some rest) :
    ∃ space, space ≠ [] ∧ AllBlank space ∧ s = space ++ rest := by
  cases s with
  | nil => cases h
  | cons c s =>
    rw [afterBlanks?] at h
    split at h
    · next hc =>
      cases h
      obtain ⟨gap, hgap, heq⟩ := exists_blanks s
      refine ⟨c :: gap, List.cons_ne_nil _ _, fun d hd => ?_, by rw [List.cons_append, ← heq]⟩
      rcases List.mem_cons.mp hd with rfl | hd
      · exact hc
      · exact hgap d hd
    · cases h

/-- Blanks before a name are skipped up to it. -/
theorem afterBlanks?_space_name {space name : List Char} (hne : space ≠ []) (hs : AllBlank space)
    (hn : IsName name) (rest : List Char) :
    afterBlanks? (space ++ (name ++ rest)) = some (name ++ rest) := by
  obtain ⟨c, space, rfl⟩ := List.exists_cons_of_ne_nil hne
  have hc : isBlank c = true := hs c List.mem_cons_self
  have hspace : AllBlank space := fun d hd => hs d (List.mem_cons_of_mem _ hd)
  rw [List.cons_append, afterBlanks?, if_pos hc, trimStart_space_name hspace hn]

/-- A name is declared as a fragment at the start of a text when the word for fragments, blanks
and a declaration of the name stand there. -/
theorem fragmentStarts_iff {name s : List Char} (hn : IsName name) :
    fragmentStarts name s = true ↔
      ∃ space gap after, space ≠ [] ∧ AllBlank space ∧ AllBlank gap ∧
        s = fragmentWord ++ (space ++ (name ++ (gap ++ ':' :: after))) := by
  unfold fragmentStarts
  constructor
  · intro h
    cases hrest : after? fragmentWord s >>= afterBlanks? with
    | none =>
      rw [hrest] at h
      cases h
    | some rest =>
      rw [hrest] at h
      obtain ⟨t, ht, hblanks⟩ := Option.bind_eq_some_iff.mp hrest
      obtain ⟨space, hne, hs, rfl⟩ := exists_space_of_afterBlanks? hblanks
      obtain ⟨gap, after, hgap, rfl⟩ := declares_iff.mp h
      exact ⟨space, gap, after, hne, hs, hgap, after?_eq_some_iff.mp ht⟩
  · rintro ⟨space, gap, after, hne, hs, hgap, rfl⟩
    have hrest : after? fragmentWord (fragmentWord ++ (space ++ (name ++ (gap ++ ':' :: after))))
        >>= afterBlanks? = some (name ++ (gap ++ ':' :: after)) := by
      rw [after?_append]
      exact afterBlanks?_space_name hne hs hn _
    rw [hrest]
    exact declares_iff.mpr ⟨gap, after, hgap, rfl⟩

/-! ## Declarations as a fragment -/

/-- Somewhere in the text, outside a longer word, stand the word for fragments, blanks, the name,
more blanks or none, and a colon. -/
def DeclaredAsFragment (s name : List Char) : Prop :=
  ∃ before space gap after,
    s = before ++ (fragmentWord ++ (space ++ (name ++ (gap ++ ':' :: after)))) ∧
      lastIs isWordChar false before = false ∧ space ≠ [] ∧ AllBlank space ∧ AllBlank gap

/-- The search tries every part of the text that does not come right after a word character. -/
theorem declaresFragmentFrom_iff {afterWord : Bool} {name s : List Char} :
    declaresFragmentFrom afterWord name s = true ↔
      ∃ before rest, s = before ++ rest ∧ lastIs isWordChar afterWord before = false ∧
        fragmentStarts name rest = true := by
  induction s generalizing afterWord with
  | nil =>
    constructor
    · intro h
      cases h
    · rintro ⟨before, rest, heq, -, h⟩
      obtain ⟨-, rfl⟩ := List.append_eq_nil_iff.mp heq.symm
      cases h
  | cons c s ih =>
    rw [declaresFragmentFrom, Bool.or_eq_true, Bool.and_eq_true, Bool.not_eq_true', ih]
    constructor
    · rintro (⟨hword, h⟩ | ⟨before, rest, rfl, hword, h⟩)
      · exact ⟨[], c :: s, rfl, hword, h⟩
      · exact ⟨c :: before, rest, rfl, hword, h⟩
    · rintro ⟨before, rest, heq, hword, h⟩
      cases before with
      | nil =>
        obtain rfl : c :: s = rest := heq
        exact .inl ⟨hword, h⟩
      | cons d before =>
        obtain ⟨rfl, rfl⟩ := List.cons.inj heq
        exact .inr ⟨before, rest, rfl, hword, h⟩

/-- The search for a declaration as a fragment finds exactly those. -/
theorem declaresFragment_iff {s name : List Char} (hn : IsName name) :
    declaresFragment s name = true ↔ DeclaredAsFragment s name := by
  rw [declaresFragment, declaresFragmentFrom_iff]
  constructor
  · rintro ⟨before, rest, rfl, hword, h⟩
    obtain ⟨space, gap, after, hne, hs, hgap, rfl⟩ := (fragmentStarts_iff hn).mp h
    exact ⟨before, space, gap, after, rfl, hword, hne, hs, hgap⟩
  · rintro ⟨before, space, gap, after, rfl, hword, hne, hs, hgap⟩
    exact ⟨before, _, rfl, hword,
      (fragmentStarts_iff hn).mpr ⟨space, gap, after, hne, hs, hgap, rfl⟩⟩

/-! ## Declarations at an offset -/

/-- The name stands at the offset, at the start of the text or after a blank, and blanks and a
colon follow it. -/
def DeclaredAt (s name : List Char) (offset : Nat) : Prop :=
  lastIs isBlank true (s.take offset) = true ∧
    ∃ gap after, AllBlank gap ∧ s.drop offset = name ++ (gap ++ ':' :: after)

/-- What the search goes by at an offset. -/
theorem declaredAt_iff {s name : List Char} {offset : Nat} :
    DeclaredAt s name offset ↔
      lastIs isBlank true (s.take offset) = true ∧ declares name (s.drop offset) = true := by
  rw [DeclaredAt, declares_iff]

/-- The search finds the first offset at which the name is declared. -/
theorem findDeclarationFrom?_eq_some_iff {free : Bool} {name s : List Char} {i : Nat} :
    findDeclarationFrom? free name s = some i ↔
      (lastIs isBlank free (s.take i) = true ∧ declares name (s.drop i) = true) ∧
        ∀ j < i, ¬(lastIs isBlank free (s.take j) = true ∧ declares name (s.drop j) = true) := by
  induction s generalizing free i with
  | nil =>
    constructor
    · intro h
      cases h
    · rintro ⟨⟨-, h⟩, -⟩
      obtain ⟨gap, after, -, heq⟩ := declares_iff.mp h
      rw [List.drop_nil] at heq
      simp at heq
  | cons c s ih =>
    rw [findDeclarationFrom?]
    by_cases hfirst : (free && declares name (c :: s)) = true
    · rw [if_pos hfirst]
      constructor
      · intro h
        obtain rfl : 0 = i := Option.some.inj h
        exact ⟨Bool.and_eq_true_iff.mp hfirst, fun j hj => absurd hj (Nat.not_lt_zero j)⟩
      · rintro ⟨-, hnone⟩
        cases i with
        | zero => rfl
        | succ i => exact absurd (Bool.and_eq_true_iff.mp hfirst) (hnone 0 (Nat.succ_pos i))
    · rw [if_neg hfirst, Option.map_eq_some_iff]
      constructor
      · rintro ⟨i, hi, rfl⟩
        obtain ⟨hfound, hnone⟩ := ih.mp hi
        refine ⟨hfound, fun j hj => ?_⟩
        cases j with
        | zero => exact fun h => hfirst (Bool.and_eq_true_iff.mpr h)
        | succ j => exact hnone j (Nat.lt_of_succ_lt_succ hj)
      · rintro ⟨hfound, hnone⟩
        cases i with
        | zero => exact absurd (Bool.and_eq_true_iff.mpr hfound) hfirst
        | succ i =>
          exact ⟨i, ih.mpr ⟨hfound, fun j hj => hnone (j + 1) (Nat.succ_lt_succ hj)⟩, rfl⟩

/-- **A name is located at the first offset at which it is declared.** -/
theorem findDeclaration?_eq_some_iff {s name : List Char} {i : Nat} :
    findDeclaration? s name = some i ↔
      DeclaredAt s name i ∧ ∀ j < i, ¬DeclaredAt s name j := by
  simp only [findDeclaration?, findDeclarationFrom?_eq_some_iff, declaredAt_iff]

/-- A name is not located exactly if it is declared nowhere. -/
theorem findDeclaration?_eq_none_iff {s name : List Char} :
    findDeclaration? s name = none ↔ ∀ i, ¬DeclaredAt s name i := by
  constructor
  · intro hnone i hi
    -- below a declared offset there is a first one
    induction i using Nat.strongRecOn with
    | _ i ih =>
      have hsome := findDeclaration?_eq_some_iff.mpr ⟨hi, fun j hj => ih j hj⟩
      rw [hnone] at hsome
      cases hsome
  · intro h
    rw [Option.eq_none_iff_forall_ne_some]
    intro i hi
    exact h i (findDeclaration?_eq_some_iff.mp hi).1

end GrammarAudit.Grammar
