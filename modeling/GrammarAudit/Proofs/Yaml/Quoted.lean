import GrammarAudit.Proofs.Yaml.Cursor
import GrammarAudit.Yaml.Token

/-!
# Reading between quotes

What stands between quotes is read piece by piece: a character, a run of blanks, a run of line
breaks with the indentation behind it, an escape. So a text between quotes can be read from its end
back, one piece at a time.

- `ReadsQuoted`: what a text between quotes is read as, up to the closing quote.
- `QuotedStep`, `ReadsQuoted.of_step`: one piece.
- `ReadsBreaks`: the line breaks and the indentation in front of a text.
- `ReadsQuoted.close`, `ReadsQuoted.char`, `ReadsQuoted.space` and the others: the pieces there are.
-/

namespace GrammarAudit.Yaml

open Cursor

/-- Between quotes, a text is read as `s` up to and with the closing quote, and `rest` is left. -/
def ReadsQuoted (mark : Char) (text s rest : List Char) : Prop :=
  ∀ line column fuel, text.length < fuel → ∃ line' column', line ≤ line' ∧
    takeQuoted mark fuel (before text line column) = .ok (s, before rest line' column')

/-- Between quotes, the start of a text is read as `part`, and `text'` is left of it. -/
structure QuotedStep (mark : Char) (text part text' : List Char) : Prop where
  shorter : text'.length < text.length
  reads : ∀ line column, ∃ line' column', line ≤ line' ∧ ∀ fuel,
    takeQuoted mark (fuel + 1) (before text line column) =
      (takeQuoted mark fuel (before text' line' column') >>= fun r => return (part ++ r.1, r.2))

variable {mark c : Char} {text text' part s rest breaks : List Char}

theorem ReadsQuoted.of_step (part : List Char) (hstep : QuotedStep mark text part text')
    (h : ReadsQuoted mark text' s rest) : ReadsQuoted mark text (part ++ s) rest := by
  intro line column fuel hfuel
  obtain ⟨fuel, rfl⟩ : ∃ k, fuel = k + 1 := ⟨fuel - 1, by omega⟩
  obtain ⟨line₁, column₁, hle₁, hread⟩ := hstep.reads line column
  obtain ⟨line₂, column₂, hle₂, htail⟩ :=
    h line₁ column₁ fuel (Nat.lt_of_lt_of_le hstep.shorter (Nat.le_of_lt_succ hfuel))
  refine ⟨line₂, column₂, Nat.le_trans hle₁ hle₂, ?_⟩
  rw [hread, htail]
  rfl

/-! ## Single characters -/

theorem isSpacing_of_isBreak (h : isBreak c = true) : isSpacing c = true := by
  rw [isSpacing, h, Bool.or_true]

theorem isBreak_of_not_isSpacing (h : isSpacing c = false) : isBreak c = false :=
  (Bool.or_eq_false_iff.mp h).2

/-- The closing quote; a single one is not followed by another. -/
theorem ReadsQuoted.close (hmark : isBreak mark = false)
    (hrest : mark = '\'' → rest.head? ≠ some '\'') : ReadsQuoted mark (mark :: rest) [] rest := by
  intro line column fuel hfuel
  obtain ⟨fuel, rfl⟩ : ∃ k, fuel = k + 1 := ⟨fuel - 1, by omega⟩
  obtain ⟨column', hnext⟩ := exists_next_before hmark rest line column
  refine ⟨line, column', Nat.le_refl line, ?_⟩
  have hpair : (decide (mark = '\'') && decide (rest.head? = some '\'')) = false := by
    simpa using hrest
  rw [takeQuoted, before_rest]
  dsimp only
  rw [if_pos rfl, hpair, if_neg Bool.false_ne_true, hnext]
  rfl

/-- A character that stands for itself. -/
theorem ReadsQuoted.char (hspacing : isSpacing c = false) (hmark : c ≠ mark)
    (hslash : mark = '"' → c ≠ '\\') (h : ReadsQuoted mark text s rest) :
    ReadsQuoted mark (c :: text) (c :: s) rest := by
  refine ReadsQuoted.of_step [c] ⟨Nat.lt_succ_self _, fun line column => ?_⟩ h
  obtain ⟨column', hnext⟩ :=
    exists_next_before (isBreak_of_not_isSpacing hspacing) text line column
  refine ⟨line, column', Nat.le_refl line, fun fuel => ?_⟩
  have hescape : (decide (c = '\\') && decide (mark = '"')) = false := by
    rw [Bool.and_comm]
    simpa using hslash
  rw [takeQuoted, before_rest]
  dsimp only
  rw [if_neg hmark, hspacing, if_neg Bool.false_ne_true, hescape, if_neg Bool.false_ne_true, hnext]
  rfl

/-- Between single quotes, two quotes stand for one. -/
theorem ReadsQuoted.quote (h : ReadsQuoted '\'' text s rest) :
    ReadsQuoted '\'' ('\'' :: '\'' :: text) ('\'' :: s) rest := by
  have hshorter : text.length < ('\'' :: '\'' :: text).length := by
    simp only [List.length_cons]
    omega
  refine ReadsQuoted.of_step ['\''] ⟨hshorter, fun line column => ?_⟩ h
  refine ⟨line, column + 2, Nat.le_refl line, fun fuel => ?_⟩
  have hquote : TakesColumn '\'' := ⟨rfl, by decide⟩
  have hadvance : advance 2 (before ('\'' :: '\'' :: text) line column) =
      before text line (column + 2) :=
    advance_append (w := ['\'', '\'']) (by simp [hquote]) text line column
  have hpair : (decide ('\'' = '\'') && decide (('\'' :: text).head? = some '\'')) = true := rfl
  rw [takeQuoted, before_rest]
  dsimp only
  rw [if_pos rfl, hpair, if_pos rfl, hadvance]
  rfl

/-! ## Blanks -/

/-- A character between words of one line. -/
def isBlank (c : Char) : Bool :=
  c = ' ' || c = '\t'

theorem isBlank_eq : (fun x => decide (x = ' ') || decide (x = '\t')) = isBlank := rfl

theorem takesColumn_of_isBlank (h : isBlank c = true) : TakesColumn c := by
  rcases (by simpa [isBlank] using h : c = ' ' ∨ c = '\t') with rfl | rfl
  · exact takesColumn_space
  · exact ⟨rfl, by decide⟩

theorem isSpacing_of_isBlank (h : isBlank c = true) : isSpacing c = true := by
  rw [isSpacing, show (decide (c = ' ') || decide (c = '\t')) = true from h, Bool.true_or]

theorem isBlank_of_not_isSpacing (h : isSpacing c = false) : isBlank c = false :=
  (Bool.or_eq_false_iff.mp h).1

/-- The text goes on in its line: behind the blanks comes a character that is no line break. -/
def GoesOn (text : List Char) : Prop :=
  ∃ c t, text.dropWhile isBlank = c :: t ∧ isBreak c = false

theorem goesOn_cons (hc : isSpacing c = false) (t : List Char) : GoesOn (c :: t) := by
  refine ⟨c, t, List.dropWhile_cons_of_neg ?_, isBreak_of_not_isSpacing hc⟩
  rw [isBlank_of_not_isSpacing hc]
  exact Bool.false_ne_true

theorem GoesOn.space (h : GoesOn text) : GoesOn (' ' :: text) := by
  obtain ⟨c, t, hdrop, hc⟩ := h
  exact ⟨c, t, by rw [List.dropWhile_cons_of_pos rfl, hdrop], hc⟩

theorem quotedSpaces_of_goesOn (h : GoesOn text) (line column : Nat) :
    quotedSpaces (before text line column) = .ok (text.takeWhile isBlank,
      before (text.dropWhile isBlank) line (column + (text.takeWhile isBlank).length)) := by
  obtain ⟨c, t, hdrop, hc⟩ := h
  have hblanks : ∀ x ∈ text.takeWhile isBlank, TakesColumn x :=
    fun x hx => takesColumn_of_isBlank (List.all_eq_true.mp List.all_takeWhile x hx)
  have hadvance := advance_append hblanks (text.dropWhile isBlank) line column
  rw [List.takeWhile_append_dropWhile] at hadvance
  have hnone : (before (text.dropWhile isBlank) line
      (column + (text.takeWhile isBlank).length)).takeBreak? = none := by
    refine takeBreak?_eq_none fun x hx => ?_
    rw [hdrop] at hx
    exact Option.some.inj hx ▸ hc
  have hsome : (before (text.dropWhile isBlank) line
      (column + (text.takeWhile isBlank).length)).rest ≠ [] := by
    rw [before_rest, hdrop]
    exact List.cons_ne_nil c t
  unfold quotedSpaces
  rw [before_rest]
  dsimp only
  rw [isBlank_eq, hadvance, hnone]
  exact if_neg hsome

/-- A run of blanks is read at once. -/
theorem takeQuoted_blanks (hmark : isSpacing mark = false) (hc : isBlank c = true)
    (h : GoesOn (c :: text)) (line column fuel : Nat) :
    takeQuoted mark (fuel + 1) (before (c :: text) line column) =
      (takeQuoted mark fuel (before ((c :: text).dropWhile isBlank) line
          (column + ((c :: text).takeWhile isBlank).length)) >>=
        fun r => return ((c :: text).takeWhile isBlank ++ r.1, r.2)) := by
  have hspacing := isSpacing_of_isBlank hc
  have hne : c ≠ mark := by
    rintro rfl
    exact Bool.false_ne_true (hmark.symm.trans hspacing)
  rw [takeQuoted, before_rest]
  dsimp only
  rw [if_neg hne, if_pos hspacing, quotedSpaces_of_goesOn h]
  rfl

/-- What leading blanks begin with is a blank at the start of the text. -/
theorem exists_cons_of_takeWhile_isBlank {c : Char} {blanks : List Char}
    (h : text.takeWhile isBlank = c :: blanks) : ∃ t, text = c :: t ∧ isBlank c = true := by
  cases text with
  | nil => cases h
  | cons d t =>
    by_cases hd : isBlank d = true
    · rw [List.takeWhile_cons_of_pos hd] at h
      obtain ⟨rfl, -⟩ := List.cons.inj h
      exact ⟨t, rfl, hd⟩
    · rw [List.takeWhile_cons_of_neg hd] at h
      cases h

/-- A space that is not at the end of a line stands for itself. -/
theorem ReadsQuoted.space (hmark : isSpacing mark = false) (hgoes : GoesOn text)
    (h : ReadsQuoted mark text s rest) : ReadsQuoted mark (' ' :: text) (' ' :: s) rest := by
  have htake : (' ' :: text).takeWhile isBlank = ' ' :: text.takeWhile isBlank :=
    List.takeWhile_cons_of_pos rfl
  have hdrop : (' ' :: text).dropWhile isBlank = text.dropWhile isBlank :=
    List.dropWhile_cons_of_pos rfl
  intro line column fuel hfuel
  obtain ⟨fuel, rfl⟩ : ∃ k, fuel = k + 1 := ⟨fuel - 1, by omega⟩
  have hread := takeQuoted_blanks hmark (c := ' ') rfl hgoes.space line column fuel
  rw [htake, hdrop, List.length_cons] at hread
  cases hstart : text.takeWhile isBlank with
  | nil =>
    -- the space stands alone
    have hsame : text.dropWhile isBlank = text := by
      conv => rhs; rw [← List.takeWhile_append_dropWhile (p := isBlank) (l := text), hstart]
      rfl
    obtain ⟨line', column', hle, htail⟩ :=
      h line (column + 1) fuel (Nat.lt_of_succ_lt_succ hfuel)
    refine ⟨line', column', hle, ?_⟩
    rw [hread, hstart, hsame]
    show (takeQuoted mark fuel (before text line (column + 1)) >>= _) = _
    rw [htail]
    rfl
  | cons c blanks =>
    -- it is read together with the blanks behind it
    obtain ⟨t, rfl, hc⟩ := exists_cons_of_takeWhile_isBlank hstart
    obtain ⟨line', column', hle, htail⟩ :=
      h line (column + 1) (fuel + 1) (Nat.lt_succ_of_lt (Nat.lt_of_succ_lt_succ hfuel))
    rw [takeQuoted_blanks hmark hc hgoes, Nat.add_assoc, Nat.add_comm 1] at htail
    refine ⟨line', column', hle, ?_⟩
    rw [hread]
    revert htail
    cases takeQuoted mark fuel (before ((c :: t).dropWhile isBlank) line
      (column + (((c :: t).takeWhile isBlank).length + 1))) with
    | error e => exact fun htail => nomatch htail
    | ok r =>
      intro htail
      obtain ⟨hs, hrest⟩ := Prod.mk.inj (Except.ok.inj htail)
      rw [← hs, ← hrest]
      rfl

/-! ## Line breaks -/

/-- The line breaks and the indentation in front of a text: which breaks there are, and what is left
behind the indentation. -/
structure ReadsBreaks (text breaks text' : List Char) : Prop where
  length_le : text'.length ≤ text.length
  reads : ∀ line column fuel, text.length < fuel → ∃ line' column', line ≤ line' ∧
    quotedBreaks fuel (before text line column) = .ok (breaks, before text' line' column')

theorem isBlank_of_isBreak (h : isBreak c = true) : isBlank c = false := by
  refine Bool.eq_false_iff.mpr fun hblank => ?_
  exact Bool.false_ne_true ((takesColumn_of_isBlank hblank).1.symm.trans h)

/-- An indentation in front of a text. -/
theorem ReadsBreaks.indentation {n : Nat} (hn : 0 < n) (hc : isSpacing c = false)
    (t : List Char) : ReadsBreaks (List.replicate n ' ' ++ c :: t) [] (c :: t) := by
  refine ⟨by simp, fun line column fuel hfuel => ⟨line, column + n, Nat.le_refl line, ?_⟩⟩
  obtain ⟨fuel, rfl⟩ : ∃ k, fuel = k + 1 := ⟨fuel - 1, by omega⟩
  obtain ⟨m, rfl⟩ : ∃ m, n = m + 1 := ⟨n - 1, by omega⟩
  have hseparator :
      (before (List.replicate (m + 1) ' ' ++ c :: t) line column).atSeparator = false := by
    refine atSeparator_eq_false fun x hx => ?_
    cases hx
    decide
  have hskip := skip_blanks (p := isBlank) rfl (m + 1) (c :: t)
    (fun x hx => Option.some.inj hx ▸ isBlank_of_not_isSpacing hc) line column
  have hnone : (before (c :: t) line (column + (m + 1))).takeBreak? = none :=
    takeBreak?_eq_none fun x hx => Option.some.inj hx ▸ isBreak_of_not_isSpacing hc
  rw [quotedBreaks, hseparator, if_neg Bool.false_ne_true]
  dsimp only
  rw [isBlank_eq, hskip, hnone]

/-- Another line break in front of a text. -/
theorem ReadsBreaks.cons (hc : breaksLine c = true) (h : ReadsBreaks text breaks text') :
    ReadsBreaks (c :: text) (asBreak c :: breaks) text' := by
  refine ⟨Nat.le_succ_of_le h.length_le, fun line column fuel hfuel => ?_⟩
  obtain ⟨fuel, rfl⟩ : ∃ k, fuel = k + 1 := ⟨fuel - 1, by omega⟩
  obtain ⟨line', column', hle, hread⟩ := h.reads (line + 1) 0 fuel (Nat.lt_of_succ_lt_succ hfuel)
  refine ⟨line', column', Nat.le_of_succ_le hle, ?_⟩
  have hbreak := (isBreak_of_breaksLine hc).1
  have hseparator : (before (c :: text) line column).atSeparator = false := by
    refine atSeparator_eq_false fun x hx => ?_
    cases hx
    constructor <;> rintro rfl <;> cases hbreak
  have hskip : (before (c :: text) line column).skip isBlank = before (c :: text) line column :=
    skip_of_head (fun x hx => Option.some.inj hx ▸ isBlank_of_isBreak hbreak) line column
  rw [quotedBreaks, hseparator, if_neg Bool.false_ne_true]
  dsimp only
  rw [isBlank_eq, hskip, takeBreak?_before hc]
  dsimp only
  rw [hread]
  rfl

/-- A run of line breaks is read at once, together with the indentation behind it. -/
theorem quotedStep_breaks (hmark : isSpacing mark = false) (hc : breaksLine c = true)
    (h : ReadsBreaks text breaks text') :
    QuotedStep mark (c :: text) (foldBreaks (asBreak c) breaks) text' := by
  refine ⟨Nat.lt_succ_of_le h.length_le, fun line column => ?_⟩
  obtain ⟨line', column', hle, hread⟩ :=
    h.reads (line + 1) 0 (text.length + 1) (Nat.lt_succ_self _)
  refine ⟨line', column', Nat.le_of_succ_le hle, fun fuel => ?_⟩
  have hbreak := (isBreak_of_breaksLine hc).1
  have hspacing := isSpacing_of_isBreak hbreak
  have hne : c ≠ mark := by
    rintro rfl
    exact Bool.false_ne_true (hmark.symm.trans hspacing)
  have hnone : (c :: text).takeWhile isBlank = [] := by
    refine List.takeWhile_cons_of_neg ?_
    rw [isBlank_of_isBreak hbreak]
    exact Bool.false_ne_true
  have hspaces : quotedSpaces (before (c :: text) line column) =
      .ok (foldBreaks (asBreak c) breaks, before text' line' column') := by
    unfold quotedSpaces
    rw [before_rest]
    dsimp only
    rw [isBlank_eq, hnone, List.length_nil, advance, takeBreak?_before hc]
    dsimp only
    rw [before_left, hread]
    rfl
  rw [takeQuoted, before_rest]
  dsimp only
  rw [if_neg hne, if_pos hspacing, hspaces]
  rfl

end GrammarAudit.Yaml
