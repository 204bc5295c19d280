import GrammarAudit.Text.Place

/-!
# Places below a line

A line in front of a text moves every place of the text one line down and changes no column.

- `take_line_append`, `drop_line_append`: the text around an offset below the line.
- `place_line_append`: the place of such an offset.
- `lineOf_of_le`: the offsets of the line itself lie on the first line.

A place within a text, its end included, stands for one offset only.

- `place_succ`: the place after a character that ends no line.
- `offset_place`, `place_inj`: a place leads back to its offset.
-/

namespace GrammarAudit.Text

/-- The place one line further down. -/
def Place.down (p : Place) : Place :=
  { p with line := p.line + 1 }

variable {line : List Char}

theorem take_line_append (line s : List Char) (offset : Nat) :
    (line ++ '\n' :: s).take (line.length + 1 + offset) = line ++ '\n' :: s.take offset := by
  rw [Nat.add_assoc, List.take_length_add_append, Nat.add_comm 1 offset, List.take_succ_cons]

theorem drop_line_append (line s : List Char) (offset : Nat) :
    (line ++ '\n' :: s).drop (line.length + 1 + offset) = s.drop offset := by
  rw [Nat.add_assoc, List.drop_length_add_append, Nat.add_comm 1 offset, List.drop_succ_cons]

theorem lineOf_line_append (hline : '\n' ∉ line) (s : List Char) (offset : Nat) :
    lineOf (line ++ '\n' :: s) (line.length + 1 + offset : Nat) = lineOf s offset + 1 := by
  have hcount : line.count '\n' = 0 := List.count_eq_zero.mpr hline
  rw [lineOf, lineOf, Int.toNat_natCast, Int.toNat_natCast, take_line_append, List.count_append,
    List.count_cons_self, hcount]
  omega

/-- Only what follows the last line feed counts. -/
theorem sinceLineFeed_line_append (line s : List Char) :
    sinceLineFeed (line ++ '\n' :: s) = sinceLineFeed s := by
  have hreverse : (line ++ '\n' :: s).reverse = s.reverse ++ '\n' :: line.reverse := by simp
  rw [sinceLineFeed, hreverse, List.takeWhile_append, List.takeWhile_cons_of_neg (by decide),
    List.append_nil, sinceLineFeed]
  split
  · next h => exact h.symm
  · rfl

theorem columnOf_line_append (line s : List Char) (offset : Nat) :
    columnOf (line ++ '\n' :: s) (line.length + 1 + offset : Nat) = columnOf s offset := by
  unfold columnOf
  rw [Int.toNat_natCast, Int.toNat_natCast, take_line_append]
  simp only [sinceLineFeed_line_append, List.length_append, List.length_cons]
  omega

/-- Below a line a place is one line further down, in the same column. -/
theorem place_line_append (hline : '\n' ∉ line) (s : List Char) (offset : Nat) :
    place (line ++ '\n' :: s) (line.length + 1 + offset : Nat) = (place s offset).down := by
  rw [place, lineOf_line_append hline, columnOf_line_append]
  rfl

/-- The offsets of a line at the start of a text lie on the first line. -/
theorem lineOf_of_le (hline : '\n' ∉ line) (s : List Char) {offset : Nat}
    (h : offset ≤ line.length) : lineOf (line ++ '\n' :: s) offset = 1 := by
  have hcount : (line.take offset).count '\n' = 0 :=
    List.count_eq_zero.mpr fun hmem => hline (List.mem_of_mem_take hmem)
  rw [lineOf, Int.toNat_natCast, List.take_append_of_le_length h, hcount]
  rfl

/-! ## Places and offsets -/

theorem sinceLineFeed_concat {c : Char} (hc : c ≠ '\n') (s : List Char) :
    sinceLineFeed (s ++ [c]) = sinceLineFeed s + 1 := by
  rw [sinceLineFeed, List.reverse_append, List.reverse_singleton, List.singleton_append,
    List.takeWhile_cons_of_pos (by simpa using hc), List.length_cons, sinceLineFeed]

theorem sinceLineFeed_of_not_mem {s : List Char} (h : '\n' ∉ s) : sinceLineFeed s = s.length := by
  have hall : ∀ c ∈ s.reverse, (c != '\n') = true := fun c hc =>
    bne_iff_ne.mpr fun heq => h (heq ▸ List.mem_reverse.mp hc)
  have htake : (s.reverse ++ []).takeWhile (· != '\n') =
      s.reverse ++ List.takeWhile (· != '\n') [] := List.takeWhile_append_of_pos hall
  rw [List.takeWhile_nil, List.append_nil] at htake
  rw [sinceLineFeed, htake, List.length_reverse]

/-- The place after a character that ends no line is one column further on. -/
theorem place_succ {s : List Char} {offset : Nat} {c : Char} (h : s[offset]? = some c)
    (hc : c ≠ '\n') :
    place s (offset + 1 : Nat) =
      { place s offset with column := columnOf s offset + 1 } := by
  have htake : s.take (offset + 1) = s.take offset ++ [c] := by
    rw [List.take_add_one, h, Option.toList_some]
  have hline : lineOf s (offset + 1 : Nat) = lineOf s offset := by
    rw [lineOf, lineOf, Int.toNat_natCast, Int.toNat_natCast, htake, List.count_append,
      List.count_singleton, if_neg (by simpa using hc), Nat.add_zero]
  have hcolumn : columnOf s (offset + 1 : Nat) = columnOf s offset + 1 := by
    unfold columnOf
    rw [Int.toNat_natCast, Int.toNat_natCast, htake]
    simp only [sinceLineFeed_concat hc, List.length_append, List.length_singleton]
    omega
  rw [place, hline, hcolumn]
  rfl

/-- A character in front of a line feed does not count. -/
theorem sinceLineFeed_cons_of_mem (c : Char) {s : List Char} (h : '\n' ∈ s) :
    sinceLineFeed (c :: s) = sinceLineFeed s := by
  obtain ⟨before, after, rfl⟩ := List.append_of_mem h
  rw [← List.cons_append, sinceLineFeed_line_append, sinceLineFeed_line_append]

/-- An offset is where its line starts and what has passed of the line. -/
theorem lineStart_add_sinceLineFeed {s : List Char} {offset : Nat} (h : offset ≤ s.length) :
    lineStart ((s.take offset).count '\n') s + sinceLineFeed (s.take offset) = offset := by
  -- along the text: a character in front moves all line starts but the first
  induction s generalizing offset with
  | nil =>
    obtain rfl : offset = 0 := Nat.le_zero.mp h
    rfl
  | cons c s ih =>
    cases offset with
    | zero => rfl
    | succ offset =>
      have hrest := ih (Nat.le_of_succ_le_succ h)
      rw [List.take_succ_cons]
      by_cases hc : c = '\n'
      · subst hc
        have hsince := sinceLineFeed_line_append [] (s.take offset)
        rw [List.nil_append] at hsince
        rw [List.count_cons_self, lineStart, if_pos rfl, hsince]
        omega
      · rw [List.count_cons_of_ne hc]
        by_cases hfeed : '\n' ∈ s.take offset
        · obtain ⟨n, hn⟩ := Nat.exists_eq_add_one.mpr (List.count_pos_iff.mpr hfeed)
          rw [hn] at hrest ⊢
          rw [lineStart, if_neg hc, sinceLineFeed_cons_of_mem c hfeed]
          omega
        · have hnone : '\n' ∉ c :: s.take offset := by simp [Ne.symm hc, hfeed]
          rw [List.count_eq_zero.mpr hfeed, lineStart, sinceLineFeed_of_not_mem hnone,
            List.length_cons, List.length_take_of_le (Nat.le_of_succ_le_succ h)]
          omega

/-- The place of an offset within a text leads back to it. -/
theorem offset_place {s : List Char} {offset : Nat} (h : offset ≤ s.length) :
    (place s offset).offset s = offset := by
  have hline : (lineOf s offset - 1).toNat = (s.take offset).count '\n' := by
    rw [lineOf, Int.toNat_natCast]
    omega
  have hcolumn : columnOf s offset = sinceLineFeed (s.take offset) := by
    unfold columnOf
    rw [Int.toNat_natCast]
    simp only [List.length_take_of_le h]
    omega
  show (lineStart (lineOf s offset - 1).toNat s : Int) + columnOf s offset = offset
  rw [hline, hcolumn]
  exact_mod_cast lineStart_add_sinceLineFeed h

/-- Two offsets within a text that have one place are one offset. -/
theorem place_inj {s : List Char} {i j : Nat} (hi : i ≤ s.length) (hj : j ≤ s.length) :
    place s i = place s j ↔ i = j := by
  constructor
  · intro h
    have hoffset := congrArg (Place.offset s) h
    rw [offset_place hi, offset_place hj] at hoffset
    exact Int.ofNat_inj.mp hoffset
  · rintro rfl
    rfl

end GrammarAudit.Text
