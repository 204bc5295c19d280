import GrammarAudit.Yaml.Cursor
import GrammarAudit.Yaml.Writer

/-!
# Cursors before a text

The reader of a document passes over a text character by character. What it sees there depends on
the text alone, and where it stands after it on the line breaks in it.

- `Cursor.before`: the cursor before a text, at a line and a column.
- `TakesColumn`: the characters that count as one column.
- `Cursor.advance_append`, `Cursor.skip_append`: passing over characters of one line.
- `asBreak`, `Cursor.takeBreak?_before`: a line break as it is read.
- `isSpacing_of_visible`: the characters that separate nothing.
-/

namespace GrammarAudit.Yaml

/-- A character that moves the cursor on by one column: no line break, and not the mark that a
document may start with. -/
def TakesColumn (c : Char) : Prop :=
  isBreak c = false ∧ c ≠ byteOrderMark

/-- A line break as it is read: the two rarer ones stand for themselves. -/
def asBreak (c : Char) : Char :=
  if c.toNat = 0x2028 || c.toNat = 0x2029 then c else '\n'

theorem takesColumn_space : TakesColumn ' ' :=
  ⟨rfl, by decide⟩

theorem isBreak_of_breaksLine {c : Char} (h : breaksLine c = true) :
    isBreak c = true ∧ c ≠ '\r' := by
  simpa [breaksLine] using h

/-- A visible character of the basic set is no separator. -/
theorem isSpacing_of_visible {c : Char} (hlow : 0x20 < c.toNat) (hhigh : c.toNat ≤ 0x7e) :
    isSpacing c = false := by
  have hother (d : Char) (hd : d.toNat ≤ 0x20) : c ≠ d := by
    rintro rfl
    omega
  have hbreak : isBreak c = false := by
    simp only [isBreak, Bool.or_eq_false_iff, decide_eq_false_iff_not]
    exact ⟨⟨⟨⟨hother '\n' (by decide), hother '\r' (by decide)⟩, by omega⟩, by omega⟩, by omega⟩
  rw [isSpacing, hbreak, decide_eq_false (hother ' ' (by decide)),
    decide_eq_false (hother '\t' (by decide))]
  rfl

namespace Cursor

/-- The cursor before a text. -/
def before (text : List Char) (line column : Nat) : Cursor :=
  ⟨text, text.length, line, column⟩

variable {text rest : List Char} {line column : Nat} {c : Char}

@[simp] theorem before_rest : (before text line column).rest = text := rfl

@[simp] theorem before_left : (before text line column).left = text.length := rfl

@[simp] theorem before_line : (before text line column).line = line := rfl

@[simp] theorem before_column : (before text line column).column = column := rfl

/-! ## One character -/

theorem next_before (hc : TakesColumn c) :
    (before (c :: rest) line column).next = before rest line (column + 1) := by
  show (if isBreak c && _ then _ else _) = _
  rw [hc.1, Bool.false_and, if_neg Bool.false_ne_true, if_neg hc.2]
  rfl

/-- A character that is no line break leaves the cursor on its line. -/
theorem exists_next_before (hc : isBreak c = false) (rest : List Char) (line column : Nat) :
    ∃ column', (before (c :: rest) line column).next = before rest line column' := by
  by_cases hmark : c = byteOrderMark
  · refine ⟨column, ?_⟩
    show (if isBreak c && _ then _ else _) = _
    rw [hc, Bool.false_and, if_neg Bool.false_ne_true, if_pos hmark]
    rfl
  · exact ⟨column + 1, next_before ⟨hc, hmark⟩⟩

theorem next_before_break (hc : breaksLine c = true) :
    (before (c :: rest) line column).next = before rest (line + 1) 0 := by
  obtain ⟨hbreak, hreturn⟩ := isBreak_of_breaksLine hc
  show (if isBreak c && !(c = '\r' && _) then _ else _) = _
  rw [hbreak, decide_eq_false hreturn]
  rfl

/-- A line break that is no carriage return is taken alone. -/
theorem takeBreak?_before (hc : breaksLine c = true) :
    (before (c :: rest) line column).takeBreak? = some (asBreak c, before rest (line + 1) 0) := by
  obtain ⟨hbreak, hreturn⟩ := isBreak_of_breaksLine hc
  have hnext : (before (c :: rest) line column).next = before rest (line + 1) 0 :=
    next_before_break hc
  rw [← hnext]
  unfold takeBreak? before
  dsimp only
  split
  · next h => exact absurd (List.cons.inj h).1 hreturn
  · next x t _ h =>
    obtain ⟨rfl, rfl⟩ := List.cons.inj h
    rw [if_pos hbreak]
    rfl
  · next h => cases h

/-- No line break is taken where the text goes on with another character, or ends. -/
theorem takeBreak?_eq_none (h : ∀ c ∈ text.head?, isBreak c = false) :
    (before text line column).takeBreak? = none := by
  unfold takeBreak? before
  dsimp only
  split
  · next rest => exact absurd (h '\r' rfl) (by decide)
  · next c rest _ => rw [if_neg (by rw [h c rfl]; exact Bool.false_ne_true)]
  · rfl

/-! ## Several characters -/

theorem advance_append {w : List Char} (hw : ∀ c ∈ w, TakesColumn c) (rest : List Char)
    (line column : Nat) :
    (before (w ++ rest) line column).advance w.length = before rest line (column + w.length) := by
  induction w generalizing column with
  | nil => rfl
  | cons c w ih =>
    rw [List.cons_append, List.length_cons, advance, next_before (hw c List.mem_cons_self),
      ih (fun d hd => hw d (List.mem_cons_of_mem c hd)), Nat.add_right_comm, Nat.add_assoc]

/-- Characters of a class are passed over up to the first one that is not of it. -/
theorem skip_append {p : Char → Bool} {w : List Char} (hp : ∀ c ∈ w, p c = true)
    (hw : ∀ c ∈ w, TakesColumn c) (hrest : ∀ c ∈ rest.head?, p c = false) (line column : Nat) :
    (before (w ++ rest) line column).skip p = before rest line (column + w.length) := by
  have hnone : rest.takeWhile p = [] := by
    cases rest with
    | nil => rfl
    | cons c rest =>
      refine List.takeWhile_cons_of_neg ?_
      rw [hrest c rfl]
      exact Bool.false_ne_true
  have htake : (w ++ rest).takeWhile p = w := by
    rw [List.takeWhile_append_of_pos hp, hnone, List.append_nil]
  show (before (w ++ rest) line column).advance ((w ++ rest).takeWhile p).length = _
  rw [htake, advance_append hw]

theorem skip_of_head {p : Char → Bool} (hrest : ∀ c ∈ rest.head?, p c = false)
    (line column : Nat) : (before rest line column).skip p = before rest line column :=
  skip_append (w := []) (fun _ h => nomatch h) (fun _ h => nomatch h) hrest line column

/-- Blanks are passed over up to what is not blank. -/
theorem skip_blanks {p : Char → Bool} (hp : p ' ' = true) (n : Nat) (rest : List Char)
    (hrest : ∀ c ∈ rest.head?, p c = false) (line column : Nat) :
    (before (List.replicate n ' ' ++ rest) line column).skip p = before rest line (column + n) := by
  have hblank : ∀ c ∈ List.replicate n ' ', c = ' ' := fun c hc => List.eq_of_mem_replicate hc
  rw [skip_append (fun c hc => by rw [hblank c hc, hp])
    (fun c hc => by rw [hblank c hc]; exact takesColumn_space) hrest, List.length_replicate]

/-! ## Marks -/

/-- Documents are separated only before a hyphen or a point. -/
theorem atSeparator_eq_false (h : ∀ c ∈ text.head?, c ≠ '-' ∧ c ≠ '.') :
    (before text line column).atSeparator = false := by
  have hmark (x : Char) (word : String) (t : List Char) (hword : word.toList = x :: t)
      (hx : ∀ c ∈ text.head?, c ≠ x) : (before text line column).startsWith word = false := by
    unfold startsWith
    rw [hword, before_rest]
    cases text with
    | nil => rfl
    | cons c text => simp [List.isPrefixOf, (hx c rfl).symm]
  unfold atSeparator atMark
  rw [hmark '-' "---" ['-', '-'] rfl fun c hc => (h c hc).1,
    hmark '.' "..." ['.', '.'] rfl fun c hc => (h c hc).2]
  rfl

end Cursor

end GrammarAudit.Yaml
