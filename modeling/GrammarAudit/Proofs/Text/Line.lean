import GrammarAudit.Proofs.Text.Place

/-!
# Places within the lines of a text

A place is read with the lines of a text in hand: it stands for an offset only if the text has that
line and the line has that column. The place of an offset is such a place and leads back to the
offset, and from its column on the line reads what the text reads there.

- `lines`, `line?`: the lines of a text.
- `Place.offset?`: the offset of a place, if the text has such a place.
- `line?_lineOf`: the line of an offset, cut in two at its column.
- `offset?_place`: the place of an offset leads back to it.
- `cut_line`: the columns that a word on a line covers.
- `Place.Before`, `place_before`: places are ordered like their offsets.
-/

namespace GrammarAudit.Text

/-- The lines of a text, without the line feeds between them. -/
def lines (s : List Char) : List (List Char) :=
  s.splitOn '\n'

/-- The line of a number, counted from one. -/
def line? (s : List Char) (number : Int) : Option (List Char) :=
  if 1 ≤ number then (lines s)[(number - 1).toNat]? else none

/-- The offset of a place, if the text has the line and the line has the column. The column after
the last character of a line counts as one of its columns. -/
def Place.offset? (s : List Char) (p : Place) : Option Nat :=
  (line? s p.line).bind fun line =>
    if 0 ≤ p.column ∧ p.column ≤ line.length then
      some (lineStart (p.line - 1).toNat s + p.column.toNat)
    else none

/-- One place comes before another: it is on an earlier line, or further left on the same line. -/
def Place.Before (p q : Place) : Prop :=
  p.line < q.line ∨ p.line = q.line ∧ p.column < q.column

/-! ## The line of an offset -/

theorem lines_lineFeed_cons (s : List Char) : lines ('\n' :: s) = [] :: lines s := by
  simp [lines, List.splitOn, List.splitOnP_cons_eq_if_modifyHead]

theorem lines_cons {c : Char} (hc : c ≠ '\n') (s : List Char) :
    lines (c :: s) = (lines s).modifyHead (c :: ·) := by
  simp [lines, List.splitOn, List.splitOnP_cons_eq_if_modifyHead, hc]

/-- The first line goes up to the first line feed. -/
theorem lines_zero (s : List Char) : (lines s)[0]? = some (s.takeWhile (· != '\n')) := by
  induction s with
  | nil => rfl
  | cons c s ih =>
    by_cases hc : c = '\n'
    · subst hc
      rw [lines_lineFeed_cons, List.takeWhile_cons_of_neg (by decide)]
      rfl
    · rw [lines_cons hc, List.getElem?_modifyHead, ih,
        List.takeWhile_cons_of_pos (by simpa using hc)]
      rfl

/-- The line that holds an offset is what has passed of it and what is left of it. -/
theorem lines_count {s : List Char} {offset : Nat} (h : offset ≤ s.length) :
    ∃ passed, passed.length = sinceLineFeed (s.take offset) ∧
      (lines s)[(s.take offset).count '\n']? =
        some (passed ++ (s.drop offset).takeWhile (· != '\n')) := by
  -- along the text: a line feed in front makes one more line, another character lengthens the first
  induction s generalizing offset with
  | nil =>
    obtain rfl : offset = 0 := Nat.le_zero.mp h
    exact ⟨[], rfl, rfl⟩
  | cons c s ih =>
    cases offset with
    | zero => exact ⟨[], rfl, lines_zero (c :: s)⟩
    | succ offset =>
      obtain ⟨passed, hpassed, hline⟩ := ih (Nat.le_of_succ_le_succ h)
      rw [List.take_succ_cons, List.drop_succ_cons]
      by_cases hc : c = '\n'
      · subst hc
        have hsince := sinceLineFeed_line_append [] (s.take offset)
        rw [List.nil_append] at hsince
        refine ⟨passed, hpassed.trans hsince.symm, ?_⟩
        rw [lines_lineFeed_cons, List.count_cons_self, List.getElem?_cons_succ, hline]
      · rw [lines_cons hc, List.count_cons_of_ne hc, List.getElem?_modifyHead]
        by_cases hfeed : '\n' ∈ s.take offset
        · refine ⟨passed, hpassed.trans (sinceLineFeed_cons_of_mem c hfeed).symm, ?_⟩
          rw [if_neg (Nat.ne_of_gt (List.count_pos_iff.mpr hfeed)), hline]
        · have hnone : '\n' ∉ c :: s.take offset := by simp [Ne.symm hc, hfeed]
          rw [sinceLineFeed_of_not_mem hfeed] at hpassed
          refine ⟨c :: passed, ?_, ?_⟩
          · rw [sinceLineFeed_of_not_mem hnone, List.length_cons, List.length_cons, hpassed]
          · rw [if_pos (List.count_eq_zero.mpr hfeed), hline]
            rfl

/-- The column of an offset is the length of what has passed of its line. -/
theorem line?_lineOf {s : List Char} {offset : Nat} (h : offset ≤ s.length) :
    ∃ passed, columnOf s offset = passed.length ∧
      line? s (lineOf s offset) = some (passed ++ (s.drop offset).takeWhile (· != '\n')) := by
  obtain ⟨passed, hpassed, hline⟩ := lines_count h
  refine ⟨passed, ?_, ?_⟩
  · unfold columnOf
    rw [Int.toNat_natCast, hpassed]
    simp only [List.length_take_of_le h]
    omega
  · have hnumber : lineOf s offset = ((s.take offset).count '\n' : Int) + 1 := by
      rw [lineOf, Int.toNat_natCast]
    have hindex : (lineOf s offset - 1).toNat = (s.take offset).count '\n' := by omega
    rw [line?, if_pos (by omega), hindex, hline]

/-- **The place of an offset leads back to it** by the lines of the text. -/
theorem offset?_place {s : List Char} {offset : Nat} (h : offset ≤ s.length) :
    (place s offset).offset? s = some offset := by
  obtain ⟨passed, hcolumn, hline⟩ := line?_lineOf h
  have hback : (lineStart (lineOf s offset - 1).toNat s : Int) + columnOf s offset = offset :=
    offset_place h
  have hinside : 0 ≤ columnOf s offset ∧
      columnOf s offset ≤ (passed ++ (s.drop offset).takeWhile (· != '\n')).length := by
    rw [List.length_append]
    omega
  show ((line? s (lineOf s offset)).bind fun line =>
    if 0 ≤ columnOf s offset ∧ columnOf s offset ≤ line.length then
      some (lineStart (lineOf s offset - 1).toNat s + (columnOf s offset).toNat)
    else none) = some offset
  rw [hline, Option.bind_some, if_pos hinside, Option.some.injEq]
  omega

/-- A word at an offset covers as many columns of the line as it has characters. -/
theorem cut_line {s word rest : List Char} {offset : Nat} (hword : '\n' ∉ word)
    (hdrop : s.drop offset = word ++ rest) (h : offset ≤ s.length) :
    ∃ line, line? s (lineOf s offset) = some line ∧
      (line.drop (columnOf s offset).toNat).take word.length = word := by
  obtain ⟨passed, hcolumn, hline⟩ := line?_lineOf h
  have hleft : (s.drop offset).takeWhile (· != '\n') = word ++ rest.takeWhile (· != '\n') := by
    rw [hdrop]
    exact List.takeWhile_append_of_pos fun c hc => bne_iff_ne.mpr fun heq => hword (heq ▸ hc)
  refine ⟨_, hline, ?_⟩
  rw [hcolumn, Int.toNat_natCast, List.drop_left, hleft, List.take_left]

/-! ## The order of places -/

theorem lineOf_mono {s : List Char} {i j : Nat} (h : i ≤ j) : lineOf s i ≤ lineOf s j := by
  have hcount : (s.take i).count '\n' ≤ (s.take j).count '\n' :=
    (List.take_sublist_take_left h).count_le _
  rw [lineOf, lineOf, Int.toNat_natCast, Int.toNat_natCast]
  omega

/-- Of two offsets the first one has the earlier place. -/
theorem place_before {s : List Char} {i j : Nat} (hij : i < j) (hj : j ≤ s.length) :
    (place s i).Before (place s j) := by
  have hi : (place s i).offset s = i := offset_place (by omega)
  have hj := offset_place hj
  unfold Place.offset at hi hj
  rcases Int.lt_or_eq_of_le (lineOf_mono (s := s) (Nat.le_of_lt hij)) with hlt | heq
  · exact .inl hlt
  · -- on one line the columns tell how far apart the offsets are
    have hline : (place s i).line = (place s j).line := heq
    rw [hline] at hi
    exact .inr ⟨hline, by omega⟩

end GrammarAudit.Text
