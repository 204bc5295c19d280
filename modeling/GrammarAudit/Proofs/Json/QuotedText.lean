import GrammarAudit.Json.Reader
import GrammarAudit.Json.Writer

/-!
# Texts in quotes read back

A text is written character by character, a few of them escaped. The reader turns every escape
into the code point that was escaped, and since no character is a surrogate it never joins two code
points into one.

- `Json.escapeChar_cases`: the three ways in which a character is written.
- `Json.readUnits?_escapeChar`: a character is read as its code point, escaped or not.
- `Json.joinSurrogates_map_toNat`: the code points of a text are its characters.
- `Json.readQuoted?_escaped`: a text in quotes is read to that text.
-/

namespace GrammarAudit.Json

open Text

/-! ## Escapes -/

/-- Control characters are written with four hexadecimal digits that have their code point. -/
theorem hexNumber?_padded : ∀ n < 0x20, (padded 4 (natNumeral 16 n)).length = 4 ∧
    hexNumber? (padded 4 (natNumeral 16 n)) = some n := by
  decide +kernel

/-- What is read after a character: its code point comes first. -/
def withUnit (c : Char) (result : List Nat × List Char) : List Nat × List Char :=
  (c.toNat :: result.1, result.2)

theorem readUnits?_short {letter c : Char} (hletter : letter ≠ 'u')
    (hescape : shortEscape? letter = some c.toNat) (rest : List Char) :
    readUnits? ('\\' :: letter :: rest) = (readUnits? rest).map (withUnit c) := by
  rw [readUnits?]
  · rw [hescape]
    cases readUnits? rest <;> rfl
  · intro _ _ _ _ _ hu
    exact absurd hu hletter

theorem readUnits?_plain {c : Char} (hquote : c ≠ '"') (hslash : c ≠ '\\') (hspace : 0x20 ≤ c.toNat)
    (rest : List Char) : readUnits? (c :: rest) = (readUnits? rest).map (withUnit c) := by
  rw [readUnits?]
  · exact if_neg (Nat.not_lt.mpr hspace)
  · exact hquote
  · intro _ _ _ _ _ hc
    exact absurd hc hslash
  · intro hc
    exact absurd hc hslash
  · intro _ _ hc
    exact absurd hc hslash

theorem readUnits?_control {c : Char} (hcontrol : c.toNat < 0x20) (rest : List Char) :
    readUnits? ('\\' :: 'u' :: padded 4 (natNumeral 16 c.toNat) ++ rest) =
      (readUnits? rest).map (withUnit c) := by
  obtain ⟨hlength, hvalue⟩ := hexNumber?_padded c.toNat hcontrol
  generalize padded 4 (natNumeral 16 c.toNat) = digits at *
  match digits, hlength with
  | [w, x, y, z], _ =>
    show readUnits? ('\\' :: 'u' :: w :: x :: y :: z :: rest) = _
    rw [readUnits?, hvalue]
    cases readUnits? rest <;> rfl

/-- A character is escaped with a letter, with hexadecimal digits, or not at all. -/
theorem escapeChar_cases (c : Char) :
    (∃ letter, escapeChar c = ['\\', letter] ∧ letter ≠ 'u' ∧
      shortEscape? letter = some c.toNat) ∨
    (escapeChar c = '\\' :: 'u' :: padded 4 (natNumeral 16 c.toNat) ∧ c.toNat < 0x20) ∨
    (escapeChar c = [c] ∧ c ≠ '"' ∧ c ≠ '\\' ∧ 0x20 ≤ c.toNat) := by
  unfold escapeChar
  split
  · next h => rcases h with rfl | rfl <;> exact .inl ⟨_, rfl, by decide, rfl⟩
  next hmarks =>
  split
  · next h => exact .inl ⟨'n', rfl, by decide, by rw [h]; rfl⟩
  split
  · next h => exact .inl ⟨'r', rfl, by decide, by rw [h]; rfl⟩
  split
  · next h => exact .inl ⟨'t', rfl, by decide, by rw [h]; rfl⟩
  split
  · next h => exact .inl ⟨'b', rfl, by decide, by rw [h]; rfl⟩
  split
  · next h => exact .inl ⟨'f', rfl, by decide, by rw [h]; rfl⟩
  split
  · next h => exact .inr (.inl ⟨rfl, h⟩)
  · next h =>
    rw [not_or] at hmarks
    exact .inr (.inr ⟨rfl, hmarks.1, hmarks.2, Nat.le_of_not_lt h⟩)

/-- **A character is read as its code point, escaped or not.** -/
theorem readUnits?_escapeChar (c : Char) (rest : List Char) :
    readUnits? (escapeChar c ++ rest) = (readUnits? rest).map (withUnit c) := by
  rcases escapeChar_cases c with ⟨letter, htext, hletter, hescape⟩ | ⟨htext, hcontrol⟩ |
    ⟨htext, hquote, hslash, hspace⟩
  · rw [htext]
    exact readUnits?_short hletter hescape rest
  · rw [htext]
    exact readUnits?_control hcontrol rest
  · rw [htext]
    exact readUnits?_plain hquote hslash hspace rest

/-- The characters of a text are read as their code points, up to the closing quote. -/
theorem readUnits?_escaped (s rest : List Char) :
    readUnits? (s.flatMap escapeChar ++ '"' :: rest) = some (s.map Char.toNat, rest) := by
  induction s with
  | nil => rfl
  | cons c s ih =>
    rw [List.flatMap_cons, List.append_assoc, readUnits?_escapeChar, ih]
    rfl

/-! ## Code points -/

/-- No character is a surrogate. -/
theorem not_surrogate (c : Char) :
    isHighSurrogate c.toNat = false ∧ isLowSurrogate c.toNat = false := by
  have hvalid : c.toNat < 0xd800 ∨ 0xdfff < c.toNat ∧ c.toNat < 0x110000 := c.valid
  unfold isHighSurrogate isLowSurrogate
  simp only [Bool.and_eq_false_iff, decide_eq_false_iff_not]
  omega

theorem codePoint_toNat (c : Char) : codePoint c.toNat = c := by
  unfold codePoint
  rw [(not_surrogate c).1, (not_surrogate c).2]
  exact Char.ofNat_toNat c

/-- The code points of characters are these characters. -/
theorem joinSurrogates_map_toNat (s : List Char) : joinSurrogates (s.map Char.toNat) = s := by
  induction s with
  | nil => rfl
  | cons c s ih =>
    cases s with
    | nil => exact congrArg (· :: []) (codePoint_toNat c)
    | cons d s =>
      rw [List.map_cons, List.map_cons, joinSurrogates, (not_surrogate c).1, Bool.false_and,
        if_neg Bool.false_ne_true, codePoint_toNat, ← List.map_cons, ih]

/-- **A text in quotes is read to that text.** -/
theorem readQuoted?_escaped (s : String) (rest : List Char) :
    readQuoted? (s.toList.flatMap escapeChar ++ '"' :: rest) = some (s, rest) := by
  unfold readQuoted?
  rw [readUnits?_escaped, Option.map_some]
  dsimp only
  rw [joinSurrogates_map_toNat, String.ofList_toList]

end GrammarAudit.Json
