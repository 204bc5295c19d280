import GrammarAudit.Proofs.Yaml.SingleQuoted

/-!
# Texts without quotes read back

A text without quotes is read word by word: the blanks between two words count as they are, and a
line break as one space. The text ends with its line, since the next line is indented less.

- `LineStart`: what a line starts with behind its indentation.
- `Words`: the texts that are read word by word.
- `ReadsPlain`: what a text without quotes is read as, up to the next line.
- `readsPlain_plainText`: a text without quotes is read as that text.
-/

namespace GrammarAudit.Yaml

open Cursor

variable {c : Char} {s t w rest text : List Char}

/-! ## Lines -/

/-- A character of a name. -/
def isKeyChar (c : Char) : Bool :=
  ('a' ≤ c && c ≤ 'z') || c = '_'

/-- What a line starts with behind its indentation: a name, the mark of an item, or nothing at the
end of the document. -/
inductive LineStart : List Char → Prop
  | key {c : Char} (h : isKeyChar c = true) (t : List Char) : LineStart (c :: t)
  | item (t : List Char) : LineStart ('-' :: ' ' :: t)
  | done : LineStart []

theorem isKeyChar_range (h : isKeyChar c = true) : 0x5f ≤ c.toNat ∧ c.toNat ≤ 0x7a := by
  simp only [isKeyChar, Bool.or_eq_true, Bool.and_eq_true, decide_eq_true_eq] at h
  rcases h with ⟨hlow, hhigh⟩ | rfl
  · exact ⟨Nat.le_trans (by decide) (show 97 ≤ c.toNat from hlow), hhigh⟩
  · decide

theorem isKeyChar_ne {d : Char} (h : isKeyChar c = true) (hd : isKeyChar d = false) : c ≠ d := by
  rintro rfl
  exact Bool.false_ne_true (hd.symm.trans h)

/-- No mark is a character of a name. -/
theorem isFirstIndicator_of_isKeyChar (h : isKeyChar c = true) : isFirstIndicator c = false := by
  have hmarks : ∀ d, isFirstIndicator d = true → isKeyChar d = false := by
    simp [isFirstIndicator, isKeyChar]
  refine Bool.eq_false_iff.mpr fun hmark => ?_
  exact Bool.false_ne_true ((hmarks c hmark).symm.trans h)

/-- A line starts with no separator and no comment. -/
theorem LineStart.head (h : LineStart rest) :
    ∀ c ∈ rest.head?, isSpacing c = false ∧ c ≠ '#' := by
  intro c hc
  cases h with
  | key hkey t =>
    cases hc
    have hrange := isKeyChar_range hkey
    exact ⟨isSpacing_of_visible (by omega) (by omega), isKeyChar_ne hkey rfl⟩
  | item t =>
    cases hc
    decide
  | done => cases hc

theorem LineStart.atSeparator (h : LineStart rest) (line column : Nat) :
    (before rest line column).atSeparator = false := by
  cases h with
  | key hkey t =>
    refine atSeparator_eq_false fun x hx => ?_
    cases hx
    exact ⟨isKeyChar_ne hkey rfl, isKeyChar_ne hkey rfl⟩
  | item t => rfl
  | done => exact atSeparator_eq_false fun x hx => nomatch hx

/-! ## Between words -/

/-- Blanks between two words count as they are. -/
theorem plainSpaces_blanks (n : Nat) (hc : isSpacing c = false) (t : List Char)
    (line column : Nat) :
    plainSpaces (before (List.replicate n ' ' ++ c :: t) line column) =
      (List.replicate n ' ', before (c :: t) line (column + n), false) := by
  have hhead : c ≠ ' ' := by
    rintro rfl
    cases hc
  have htake : (List.replicate n ' ' ++ c :: t).takeWhile (· = ' ') = List.replicate n ' ' := by
    rw [List.takeWhile_append_of_pos (by simp), List.takeWhile_cons_of_neg (by simpa using hhead),
      List.append_nil]
  have hadvance : advance n (before (List.replicate n ' ' ++ c :: t) line column) =
      before (c :: t) line (column + n) := by
    have hblanks : ∀ d ∈ List.replicate n ' ', TakesColumn d := by
      intro d hd
      rw [List.eq_of_mem_replicate hd]
      exact takesColumn_space
    have h := advance_append hblanks (c :: t) line column
    rwa [List.length_replicate] at h
  have hnone : (before (c :: t) line (column + n)).takeBreak? = none :=
    takeBreak?_eq_none fun d hd => Option.some.inj hd ▸ isBreak_of_not_isSpacing hc
  unfold plainSpaces
  rw [before_rest]
  dsimp only
  rw [htake, List.length_replicate, hadvance, hnone]

/-- The indentation of a line is passed over. -/
theorem plainBreaks_blanks (n : Nat) (hrest : ∀ c ∈ rest.head?, isSpacing c = false)
    {fuel : Nat} (hfuel : n < fuel) (line column : Nat) :
    plainBreaks fuel (before (List.replicate n ' ' ++ rest) line column) =
      ([], before rest line (column + n), false) := by
  induction n generalizing fuel column with
  | zero =>
    obtain ⟨fuel, rfl⟩ : ∃ k, fuel = k + 1 := ⟨fuel - 1, by omega⟩
    have hspace : (before rest line column).sees (· = ' ') = false := by
      show rest.head?.any _ = false
      cases rest with
      | nil => rfl
      | cons c rest =>
        have hc := hrest c rfl
        refine decide_eq_false ?_
        rintro rfl
        cases hc
    show plainBreaks (fuel + 1) (before rest line column) = _
    rw [plainBreaks, hspace, if_neg Bool.false_ne_true,
      takeBreak?_eq_none fun c hc => isBreak_of_not_isSpacing (hrest c hc)]
    rfl
  | succ n ih =>
    obtain ⟨fuel, rfl⟩ : ∃ k, fuel = k + 1 := ⟨fuel - 1, by omega⟩
    show plainBreaks (fuel + 1) (before (' ' :: (List.replicate n ' ' ++ rest)) line column) = _
    have hspace : (before (' ' :: (List.replicate n ' ' ++ rest)) line column).sees (· = ' ') =
        true := rfl
    rw [plainBreaks, hspace, if_pos rfl, next_before takesColumn_space,
      ih (Nat.lt_of_succ_lt_succ hfuel), Nat.add_right_comm, Nat.add_assoc]

/-- A line break and an indentation count as one space. -/
theorem plainSpaces_freshLine (n : Nat) (hrest : ∀ c ∈ rest.head?, isSpacing c = false)
    (hseparator : n = 0 → ∀ line, (before rest line 0).atSeparator = false) (line column : Nat) :
    plainSpaces (before (freshLine n ++ rest) line column) =
      ([' '], before rest (line + 1) n, true) := by
  have hstart : (before (List.replicate n ' ' ++ rest) (line + 1) 0).atSeparator = false := by
    cases n with
    | zero => exact hseparator rfl _
    | succ n =>
      refine atSeparator_eq_false fun x hx => ?_
      cases hx
      decide
  have hfuel : n < (List.replicate n ' ' ++ rest).length + 1 := by
    simp only [List.length_append, List.length_replicate]
    omega
  have hbreaks := plainBreaks_blanks n hrest hfuel (line + 1) 0
  have hbreak : (before (freshLine n ++ rest) line column).takeBreak? =
      some ('\n', before (List.replicate n ' ' ++ rest) (line + 1) 0) :=
    takeBreak?_before rfl
  have htake : (freshLine n ++ rest).takeWhile (· = ' ') = [] := rfl
  unfold plainSpaces
  rw [before_rest]
  dsimp only
  rw [htake, List.length_nil, advance, hbreak]
  dsimp only
  rw [hstart, if_neg Bool.false_ne_true, before_left, hbreaks, Nat.zero_add]
  rfl

/-! ## Words -/

/-- The texts that are read word by word: separated by spaces only, with no space at either end and
no mark of the format at the end of a word or before one. -/
structure Words (s : List Char) : Prop where
  calm : ∀ c ∈ s, c ≠ ' ' → isSpacing c = false ∧ c ≠ byteOrderMark
  head : ∃ c t, s = c :: t ∧ c ≠ ' ' ∧ c ≠ '#'
  last : ∀ c, s.getLast? = some c → c ≠ ' ' ∧ c ≠ ':'
  colon : hasPair (· = ':') (· = ' ') s = false
  sharp : hasPair (· = ' ') (· = '#') s = false

/-- A word ends before a separator. -/
theorem plainLength_word (hw : ∀ c ∈ w, isSpacing c = false) (hlast : w.getLast? ≠ some ':')
    (hc : isSpacing c = true) (t : List Char) : plainLength false (w ++ c :: t) = w.length := by
  induction w with
  | nil =>
    rw [List.nil_append, plainLength]
    simp [hc]
  | cons x w ih =>
    have hx := hw x List.mem_cons_self
    have hend : (x = ':' && (w ++ c :: t).head?.all fun y => isSpacing y) = false := by
      cases w with
      | nil =>
        have hcolon : x ≠ ':' := fun h => hlast (congrArg some h)
        rw [decide_eq_false hcolon, Bool.false_and]
      | cons y w =>
        have hy := hw y (by simp)
        simp [hy]
    have htail : w.getLast? ≠ some ':' := by
      cases w with
      | nil => simp
      | cons y w => simpa [List.getLast?_cons_cons] using hlast
    rw [List.cons_append, plainLength]
    simp only [Bool.false_and, Bool.or_false, hx, hend, if_neg Bool.false_ne_true]
    rw [ih (fun d hd => hw d (List.mem_cons_of_mem x hd)) htail, List.length_cons]

/-- Characters that follow each other stand on one side of a cut, or on both sides of it. -/
theorem hasPair_append {p q : Char → Bool} (h : hasPair p q (s ++ t) = false) :
    hasPair p q t = false ∧
      ∀ x y, s.getLast? = some x → t.head? = some y → p x = true → q y = false := by
  induction s with
  | nil => exact ⟨h, fun x y hx => nomatch hx⟩
  | cons c s ih =>
    obtain ⟨htail, hnext⟩ := hasPair_cons h
    refine ⟨(ih htail).1, fun x y hx hy hp => ?_⟩
    cases s with
    | nil =>
      obtain rfl : c = x := Option.some.inj hx
      have hq : t.head?.any q = false := hnext hp
      rwa [hy] at hq
    | cons d s => exact (ih htail).2 x y hx hy hp

theorem exists_blanks (s : List Char) :
    ∃ n t, s = List.replicate n ' ' ++ t ∧ t.head? ≠ some ' ' := by
  induction s with
  | nil => exact ⟨0, [], rfl, fun h => nomatch h⟩
  | cons c s ih =>
    by_cases hc : c = ' '
    · obtain ⟨n, t, hs, ht⟩ := ih
      exact ⟨n + 1, t, by rw [hc, hs]; rfl, ht⟩
    · exact ⟨0, c :: s, rfl, fun h => hc (Option.some.inj h)⟩

/-- What is left of such a text behind a word and blanks is such a text too. -/
theorem Words.behind_blanks {w : List Char} {n : Nat}
    (h : Words (w ++ ' ' :: (List.replicate n ' ' ++ t))) (hhead : t.head? ≠ some ' ') :
    Words t := by
  have hgap : w ++ ' ' :: (List.replicate n ' ' ++ t) =
      (w ++ List.replicate (n + 1) ' ') ++ t := by
    simp [List.replicate_succ]
  have hend : (w ++ List.replicate (n + 1) ' ').getLast? = some ' ' := by
    rw [List.replicate_succ', ← List.append_assoc, List.getLast?_concat]
  rw [hgap] at h
  cases t with
  | nil =>
    have hlast := h.last ' '
    rw [List.append_nil] at hlast
    exact absurd rfl (hlast hend).1
  | cons d t =>
    have hd : d ≠ ' ' := fun hd => hhead (congrArg some hd)
    have hsharps := hasPair_append h.sharp
    refine ⟨fun x hx => h.calm x (List.mem_append_right _ hx), ⟨d, t, rfl, hd, ?_⟩,
      fun x hx => h.last x ?_, (hasPair_append h.colon).1, hsharps.1⟩
    · rintro rfl
      exact absurd (hsharps.2 ' ' '#' hend rfl rfl) (by decide)
    · rw [List.getLast?_append, hx]
      rfl

/-- Such a text is one word, or a word and blanks before another such text. -/
theorem Words.split (h : Words s) : ∃ w, w ≠ [] ∧
    (∀ c ∈ w, isSpacing c = false ∧ c ≠ byteOrderMark) ∧ w.head? ≠ some '#' ∧
    w.getLast? ≠ some ':' ∧
    (s = w ∨ ∃ n t, s = w ++ (List.replicate (n + 1) ' ' ++ t) ∧ Words t) := by
  obtain ⟨c, u, rfl, hspace, hsharp⟩ := h.head
  have hsplit := List.takeWhile_append_dropWhile (p := fun x => decide (x ≠ ' ')) (l := c :: u)
  have hword : (c :: u).takeWhile (fun x => decide (x ≠ ' ')) =
      c :: u.takeWhile fun x => decide (x ≠ ' ') :=
    List.takeWhile_cons_of_pos (by simpa using hspace)
  have hcalm : ∀ x ∈ (c :: u).takeWhile fun x => decide (x ≠ ' '),
      isSpacing x = false ∧ x ≠ byteOrderMark := by
    intro x hx
    refine h.calm x ((List.takeWhile_sublist _).subset hx) ?_
    simpa using List.all_eq_true.mp List.all_takeWhile x hx
  have hblank := List.head?_dropWhile_not (fun x => decide (x ≠ ' ')) (c :: u)
  have hcolon := h.colon
  have hlast := h.last
  rw [← hsplit] at hcolon hlast
  generalize hw : (c :: u).takeWhile (fun x => decide (x ≠ ' ')) = w at *
  generalize (c :: u).dropWhile (fun x => decide (x ≠ ' ')) = r at *
  refine ⟨w, ?_, hcalm, ?_, ?_, ?_⟩
  · rw [hword]
    exact List.cons_ne_nil _ _
  · rw [hword]
    exact fun hc => hsharp (Option.some.inj hc)
  · intro hc
    cases r with
    | nil =>
      rw [List.append_nil] at hlast
      exact (hlast ':' hc).2 rfl
    | cons d r =>
      have hd : d = ' ' := by simpa using hblank
      exact absurd ((hasPair_append hcolon).2 ':' d hc rfl rfl) (by simp [hd])
  · cases r with
    | nil => exact .inl (by rw [← hsplit, List.append_nil])
    | cons d r =>
      obtain rfl : d = ' ' := by simpa using hblank
      obtain ⟨n, t, rfl, hhead⟩ := exists_blanks r
      refine .inr ⟨n, t, by rw [← hsplit]; rfl, ?_⟩
      rw [← hsplit] at h
      exact h.behind_blanks hhead

/-! ## Reading -/

/-- A text without quotes is read as `s`, up to the next line, which starts with `rest` at a
column. -/
def ReadsPlain (indent : Nat) (text s rest : List Char) (next : Nat) : Prop :=
  ∀ pending line column fuel, indent ≤ column → text.length < fuel → ∃ line', line < line' ∧
    takePlain false indent pending fuel (before text line column) =
      (pending ++ s, before rest line' next, true)

variable {indent next : Nat}

/-- One word is read, and then what separates it from the next one. -/
theorem takePlain_word (hne : w ≠ []) (hw : ∀ c ∈ w, isSpacing c = false ∧ c ≠ byteOrderMark)
    (hhead : w.head? ≠ some '#') (hlast : w.getLast? ≠ some ':') (hc : isSpacing c = true)
    (t : List Char) (pending : List Char) (line column fuel : Nat) :
    takePlain false indent pending (fuel + 1) (before (w ++ c :: t) line column) =
      let (spaces, after, broken) := plainSpaces (before (c :: t) line (column + w.length))
      if spaces = [] || after.sees (· = '#') || (!false && (after.column : Int) < indent) then
        (pending ++ w, after, broken)
      else
        let (more, last, stillBroken) := takePlain false indent spaces fuel after
        (pending ++ w ++ more, last, if more = [] then broken else stillBroken) := by
  have hsharp : (before (w ++ c :: t) line column).sees (· = '#') = false := by
    cases w with
    | nil => exact absurd rfl hne
    | cons x w => exact decide_eq_false fun hx => hhead (congrArg some hx)
  have hlength := plainLength_word (fun x hx => (hw x hx).1) hlast hc t
  have hpos : ¬w.length = 0 := fun h => hne (List.length_eq_zero_iff.mp h)
  have hadvance := advance_append
    (fun x hx => ⟨isBreak_of_not_isSpacing (hw x hx).1, (hw x hx).2⟩) (c :: t) line column
  rw [takePlain, hsharp, if_neg Bool.false_ne_true, before_rest, hlength]
  dsimp only
  rw [if_neg hpos, List.take_left, hadvance]

/-- The last word ends with its line, as the next line is indented less. -/
theorem ReadsPlain.word (hne : w ≠ []) (hw : ∀ c ∈ w, isSpacing c = false ∧ c ≠ byteOrderMark)
    (hhead : w.head? ≠ some '#') (hlast : w.getLast? ≠ some ':') (hrest : LineStart rest)
    (hnext : next < indent) : ReadsPlain indent (w ++ (freshLine next ++ rest)) w rest next := by
  intro pending line column fuel hcolumn hfuel
  obtain ⟨fuel, rfl⟩ : ∃ k, fuel = k + 1 := ⟨fuel - 1, by omega⟩
  refine ⟨line + 1, Nat.lt_succ_self line, ?_⟩
  have hspaces : plainSpaces (before ('\n' :: (List.replicate next ' ' ++ rest)) line
      (column + w.length)) = ([' '], before rest (line + 1) next, true) :=
    plainSpaces_freshLine next (fun c hc => (hrest.head c hc).1)
      (fun _ line => hrest.atSeparator line 0) line (column + w.length)
  have hless : decide (((before rest (line + 1) next).column : Int) < indent) = true :=
    decide_eq_true (Int.ofNat_lt.mpr hnext)
  show takePlain false indent pending (fuel + 1)
    (before (w ++ '\n' :: (List.replicate next ' ' ++ rest)) line column) = _
  rw [takePlain_word hne hw hhead hlast rfl, hspaces]
  dsimp only
  rw [hless, Bool.not_false, Bool.and_true, Bool.or_true, if_pos rfl]

/-- Another word, and what separates it from the next one. -/
theorem ReadsPlain.cons (gap : List Char) {d : Char} {n : Nat} (hne : w ≠ [])
    (hw : ∀ c ∈ w, isSpacing c = false ∧ c ≠ byteOrderMark) (hhead : w.head? ≠ some '#')
    (hlast : w.getLast? ≠ some ':') (hd : isSpacing d = true) (hc : c ≠ '#')
    (hgap : ∀ line column, indent ≤ column → ∃ line' column' broken, line ≤ line' ∧
      indent ≤ column' ∧ plainSpaces (before (d :: (gap ++ c :: t)) line column) =
        (List.replicate (n + 1) ' ', before (c :: t) line' column', broken))
    (h : ReadsPlain indent (c :: t) s rest next) :
    ReadsPlain indent (w ++ d :: (gap ++ c :: t)) (w ++ (List.replicate (n + 1) ' ' ++ s)) rest
      next := by
  intro pending line column fuel hcolumn hfuel
  obtain ⟨fuel, rfl⟩ : ∃ k, fuel = k + 1 := ⟨fuel - 1, by omega⟩
  obtain ⟨line₁, column₁, broken, hle, hcolumn₁, hspaces⟩ :=
    hgap line (column + w.length) (Nat.le_add_right_of_le hcolumn)
  have hshorter : (c :: t).length < fuel := by
    simp only [List.length_append, List.length_cons] at hfuel ⊢
    omega
  obtain ⟨line₂, hlt, hread⟩ :=
    h (List.replicate (n + 1) ' ') line₁ column₁ fuel hcolumn₁ hshorter
  refine ⟨line₂, Nat.lt_of_le_of_lt hle hlt, ?_⟩
  have hsharp : (before (c :: t) line₁ column₁).sees (· = '#') = false := decide_eq_false hc
  have hcolumn₂ : ¬(column₁ : Int) < indent := by omega
  have hblank : List.replicate (n + 1) ' ' ≠ [] := fun h => nomatch h
  have hmore : List.replicate (n + 1) ' ' ++ s ≠ [] := fun h => nomatch h
  rw [takePlain_word hne hw hhead hlast hd, hspaces]
  dsimp only
  rw [hsharp, before_column, decide_eq_false hblank, decide_eq_false hcolumn₂, hread]
  dsimp only
  rw [if_neg hmore, List.append_assoc]
  rfl

/-! ## What is written -/

section Written

variable {f : Folding} {previous : Option Char} {column : Nat}

/-- A word is written as it is. -/
theorem foldText_word (hw : ∀ c ∈ w, isSpacing c = false) (s : List Char)
    (previous : Option Char) (column : Nat) :
    ∃ previous' column', foldText f (fun c => [c]) previous column (w ++ s) =
      w ++ foldText f (fun c => [c]) previous' column' s := by
  induction w generalizing previous column with
  | nil => exact ⟨previous, column, rfl⟩
  | cons c w ih =>
    have hc := hw c List.mem_cons_self
    have hspace : c ≠ ' ' := by
      rintro rfl
      cases hc
    have hbreak : ¬breaksLine c = true := by
      rw [breaksLine, isBreak_of_not_isSpacing hc]
      exact Bool.false_ne_true
    obtain ⟨previous', column', htext⟩ :=
      ih (fun d hd => hw d (List.mem_cons_of_mem c hd)) (some c) (column + [c].length)
    refine ⟨previous', column', ?_⟩
    rw [List.cons_append, foldText, if_neg hspace, if_neg hbreak, htext]
    rfl

/-- A character that is no separator is written first. -/
theorem foldText_cons (hc : isSpacing c = false) (previous : Option Char)
    (column : Nat) (s : List Char) : ∃ previous' column',
      foldText f (fun c => [c]) previous column (c :: s) =
        c :: foldText f (fun c => [c]) previous' column' s :=
  foldText_word (w := [c]) (fun _ hd => List.mem_singleton.mp hd ▸ hc) s previous column

/-- Blanks behind a blank are written as they are. -/
theorem foldText_more_blanks {shown : Char → List Char} (n : Nat) (s : List Char) :
    foldText f shown (some ' ') column (List.replicate n ' ' ++ s) =
      List.replicate n ' ' ++ foldText f shown (some ' ') (column + n) s := by
  induction n generalizing column with
  | zero => rfl
  | succ n ih =>
    have halone : (some ' ').any (· ≠ ' ') = false := rfl
    rw [List.replicate_succ, List.cons_append, foldText, if_pos rfl]
    dsimp only
    rw [halone, Bool.false_and, Bool.false_and, if_neg Bool.false_ne_true, ih, Nat.add_assoc,
      Nat.add_comm 1]
    rfl

/-- Blanks before a word are written as they are, or one blank as a line break. -/
theorem foldText_blanks {shown : Char → List Char} (n : Nat) (s : List Char) :
    (∃ column', foldText f shown previous column (List.replicate (n + 1) ' ' ++ s) =
        List.replicate (n + 1) ' ' ++ foldText f shown (some ' ') column' s) ∨
      n = 0 ∧ foldText f shown previous column (List.replicate (n + 1) ' ' ++ s) =
        freshLine f.indent ++ foldText f shown (some ' ') f.indent s := by
  rw [List.replicate_succ, List.cons_append, foldText, if_pos rfl]
  dsimp only
  split
  · next hfold =>
    rw [Bool.and_eq_true, Bool.and_eq_true] at hfold
    cases n with
    | zero => exact .inr ⟨rfl, rfl⟩
    | succ n => exact absurd hfold.1.2 (by simp [List.replicate_succ])
  · exact .inl ⟨column + 1 + n, by rw [foldText_more_blanks]; rfl⟩

/-- What is written of a text that is read word by word is read as that text. -/
theorem foldText_readsPlain (hindent : indent ≤ f.indent) (hrest : LineStart rest)
    (hnext : next < indent) (hs : Words s) (previous : Option Char) (column : Nat) :
    ReadsPlain indent (foldText f (fun c => [c]) previous column s ++ (freshLine next ++ rest)) s
      rest next := by
  -- word by word
  induction hlength : s.length using Nat.strongRecOn generalizing s previous column with
  | ind n ih =>
  obtain ⟨w, hne, hw, hhead, hlast, rfl | ⟨k, t, rfl, ht⟩⟩ := hs.split
  · obtain ⟨previous', column', htext⟩ := foldText_word (f := f) (fun c hc => (hw c hc).1) []
      previous column
    rw [List.append_nil] at htext
    rw [htext, foldText, List.append_nil]
    exact ReadsPlain.word hne hw hhead hlast hrest hnext
  · obtain ⟨previous', column', htext⟩ := foldText_word (f := f) (fun c hc => (hw c hc).1)
      (List.replicate (k + 1) ' ' ++ t) previous column
    have hshorter : t.length < n := by
      have hword := List.length_pos_iff.mpr hne
      rw [← hlength]
      simp only [List.length_append]
      omega
    obtain ⟨c, u, rfl, hspace, hsharp⟩ := ht.head
    have hc := (ht.calm c List.mem_cons_self hspace).1
    have hstart (previous : Option Char) (column : Nat) :
        ∃ v, foldText f (fun c => [c]) previous column (c :: u) = c :: v := by
      obtain ⟨_, _, h⟩ := foldText_cons (f := f) hc previous column u
      exact ⟨_, h⟩
    rw [htext, List.append_assoc]
    rcases foldText_blanks k (c :: u) with ⟨column'', hblanks⟩ | ⟨rfl, hblanks⟩
    · have hread := ih _ hshorter ht (some ' ') column'' rfl
      obtain ⟨v, hv⟩ := hstart (some ' ') column''
      rw [hblanks, hv, List.append_assoc]
      rw [hv] at hread
      refine ReadsPlain.cons (List.replicate k ' ') hne hw hhead hlast (d := ' ') rfl hsharp ?_
        hread
      intro line column hcolumn
      exact ⟨line, _, false, Nat.le_refl line, Nat.le_add_right_of_le hcolumn,
        plainSpaces_blanks (k + 1) hc _ line column⟩
    · have hread := ih _ hshorter ht (some ' ') f.indent rfl
      obtain ⟨v, hv⟩ := hstart (some ' ') f.indent
      rw [hblanks, hv, List.append_assoc]
      rw [hv] at hread
      refine ReadsPlain.cons (List.replicate f.indent ' ') (n := 0) hne hw hhead hlast
        (d := '\n') rfl hsharp ?_ hread
      intro line column hcolumn
      refine ⟨line + 1, _, true, Nat.le_succ line, hindent,
        plainSpaces_freshLine f.indent ?_ ?_ line column⟩
      · exact fun d hd => Option.some.inj hd ▸ hc
      · intro hzero
        omega

end Written

/-- The texts that can stand without quotes, whatever they stand for there. -/
structure PlainForm (s : List Char) : Prop where
  ne_nil : s ≠ []
  calm : ∀ c ∈ s, isSpecial c = false ∧ breaksLine c = false
  head : s.head? ≠ some ' '
  last : s.getLast? ≠ some ' '
  start : startsLikeMark s = false
  marks : holdsMark s = false

theorem PlainForm.words (h : PlainForm s) : Words s := by
  have hmarks := h.marks
  unfold holdsMark at hmarks
  rw [Bool.or_eq_false_iff, Bool.or_eq_false_iff] at hmarks
  refine ⟨fun c hc hspace => ?_, ?_, fun c hc => ⟨?_, ?_⟩, hmarks.1.2, hmarks.2⟩
  · obtain ⟨hspecial, hbreak⟩ := h.calm c hc
    refine ⟨isSpacing_of_not_isSpecial hspecial hspace hbreak, ?_⟩
    rintro rfl
    exact absurd hspecial (by decide)
  · cases s with
    | nil => exact absurd rfl h.ne_nil
    | cons c s =>
      refine ⟨c, s, rfl, fun hc => h.head (congrArg some hc), ?_⟩
      rintro rfl
      exact absurd h.start (by simp [startsLikeMark, isFirstIndicator])
  · rintro rfl
    exact h.last hc
  · rintro rfl
    exact absurd hmarks.1.1 (by simp [hc])

/-- Such a text starts like no mark. -/
theorem PlainForm.start_cons (h : PlainForm s) : ∃ x r, s = x :: r ∧ isSpacing x = false ∧
    isFirstIndicator x = false ∧
    (x = '-' ∨ x = '?' ∨ x = ':' → ∃ y u, r = y :: u ∧ isSpacing y = false) := by
  obtain ⟨x, r, rfl, hspace, -⟩ := h.words.head
  have hstart := h.start
  have hmarks := h.marks
  unfold startsLikeMark at hstart
  unfold holdsMark at hmarks
  rw [Bool.or_eq_false_iff, Bool.or_eq_false_iff, Bool.or_eq_false_iff] at hstart
  rw [Bool.or_eq_false_iff, Bool.or_eq_false_iff] at hmarks
  refine ⟨x, r, rfl, (h.words.calm x List.mem_cons_self hspace).1, hstart.1.1.1, fun hx => ?_⟩
  have hnext : ∃ y u, r = y :: u ∧ y ≠ ' ' := by
    cases r with
    | nil =>
      rcases hx with rfl | rfl | rfl
      · exact absurd hstart.1.1.2 (by decide)
      · exact absurd hstart.1.1.2 (by decide)
      · exact absurd hmarks.1.1 (by decide)
    | cons y u =>
      refine ⟨y, u, rfl, ?_⟩
      rintro rfl
      rcases hx with rfl | rfl | rfl
      · exact absurd hstart.1.1.2 (by simp)
      · exact absurd hstart.1.1.2 (by simp)
      · exact absurd hmarks.1.2 (by simp [hasPair])
  obtain ⟨y, u, rfl, hy⟩ := hnext
  exact ⟨y, u, rfl, (h.words.calm y (by simp) hy).1⟩

/-- **A text without quotes is read as that text.** -/
theorem readsPlain_plainText {f : Folding} (hs : PlainForm s) (hindent : indent ≤ f.indent)
    (hrest : LineStart rest) (hnext : next < indent) (column : Nat) :
    ReadsPlain indent (plainText f column s ++ (freshLine next ++ rest)) s rest next :=
  foldText_readsPlain hindent hrest hnext hs.words none column

end GrammarAudit.Yaml
