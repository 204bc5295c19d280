import GrammarAudit.Proofs.Yaml.Quoted
import GrammarAudit.Yaml.Writer

/-!
# Texts in double quotes read back

Between double quotes every character that has no plain place there is escaped, and lines are broken
by an escaped line break, which counts for nothing. So every text reads back.

- `ReadsQuoted.escapedChar`: the escape of a character is read as that character.
- `ReadsQuoted.escapedBreak`: an escaped line break and the indentation behind it are dropped.
- `ReadsEscaped`: what is written of a text, from any point on.
- `readsQuoted_doubleQuoted`: a text in double quotes is read as that text.
-/

namespace GrammarAudit.Yaml

open Cursor Text

variable {mark c : Char} {text text' part s rest out : List Char}

/-! ## Escapes -/

/-- An escape between double quotes, from what is read behind its backslash. -/
theorem quotedStep_escape (hlength : text'.length ≤ text.length)
    (h : ∀ line column, ∃ line' column', line ≤ line' ∧
      takeEscape (before text line column) = .ok (part, before text' line' column')) :
    QuotedStep '"' ('\\' :: text) part text' := by
  refine ⟨Nat.lt_succ_of_le hlength, fun line column => ?_⟩
  obtain ⟨line', column', hle, hread⟩ := h line (column + 1)
  refine ⟨line', column', hle, fun fuel => ?_⟩
  have hnext : (before ('\\' :: text) line column).next = before text line (column + 1) :=
    next_before ⟨rfl, by decide⟩
  rw [takeQuoted, before_rest]
  dsimp only
  rw [if_neg (by decide), if_neg (by decide), if_pos (by decide), hnext, hread]
  rfl

/-- An escape of one letter. -/
theorem ReadsQuoted.letter {letter : Char} (hbreak : isBreak letter = false)
    (hletter : escapeOf? letter = some c) (h : ReadsQuoted '"' text s rest) :
    ReadsQuoted '"' ('\\' :: letter :: text) (c :: s) rest := by
  refine ReadsQuoted.of_step [c] (quotedStep_escape (Nat.le_succ _) ?_) h
  intro line column
  obtain ⟨column', hnext⟩ := exists_next_before hbreak text line column
  refine ⟨line, column', Nat.le_refl line, ?_⟩
  unfold takeEscape
  rw [before_rest]
  dsimp only
  rw [hletter]
  dsimp only
  rw [hnext]

/-- An escape by code point. -/
theorem ReadsQuoted.code {kind : Char} {digits : List Char} (hkind : TakesColumn kind)
    (hletter : escapeOf? kind = none) (hcount : escapeDigits? kind = some digits.length)
    (hhex : ∀ d ∈ digits, isHex d = true ∧ TakesColumn d) (hvalue : valueIn 16 digits = c.toNat)
    (h : ReadsQuoted '"' text s rest) :
    ReadsQuoted '"' ('\\' :: kind :: (digits ++ text)) (c :: s) rest := by
  refine ReadsQuoted.of_step [c] (quotedStep_escape ?_ ?_) h
  · simp only [List.length_cons, List.length_append]
    omega
  intro line column
  refine ⟨line, column + 1 + digits.length, Nat.le_refl line, ?_⟩
  have hnext : (before (kind :: (digits ++ text)) line column).next =
      before (digits ++ text) line (column + 1) := next_before hkind
  have hadvance := advance_append (fun d hd => (hhex d hd).2) text line (column + 1)
  have hbound : c.toNat < 0x110000 := by
    have hvalid : c.toNat < 0xd800 ∨ 0xdfff < c.toNat ∧ c.toNat < 0x110000 := c.valid
    omega
  have hall : digits.all isHex = true := List.all_eq_true.mpr fun d hd => (hhex d hd).1
  unfold takeEscape
  rw [before_rest]
  dsimp only
  rw [hletter, hcount]
  dsimp only
  rw [hnext]
  unfold numberEscape
  rw [before_rest, List.take_left, if_pos ⟨rfl, hall⟩]
  dsimp only
  rw [hvalue, if_pos hbound, Char.ofNat_toNat, hadvance]

/-- An escaped line break is dropped, together with the indentation behind it. -/
theorem ReadsQuoted.escapedBreak {n : Nat} (hn : 0 < n) (hc : isSpacing c = false)
    (h : ReadsQuoted '"' (c :: text) s rest) :
    ReadsQuoted '"' ('\\' :: (freshLine n ++ c :: text)) s rest := by
  have hbreaks := ReadsBreaks.indentation hn hc text
  refine ReadsQuoted.of_step []
    (quotedStep_escape (Nat.le_succ_of_le hbreaks.length_le) ?_) h
  intro line column
  have hfeed : (before ('\n' :: (List.replicate n ' ' ++ c :: text)) line column).takeBreak? =
      some ('\n', before (List.replicate n ' ' ++ c :: text) (line + 1) 0) :=
    takeBreak?_before rfl
  obtain ⟨line', column', hle, hread⟩ := hbreaks.reads (line + 1) 0 _ (Nat.lt_succ_self _)
  refine ⟨line', column', Nat.le_of_succ_le hle, ?_⟩
  show takeEscape (before ('\n' :: (List.replicate n ' ' ++ c :: text)) line column) = _
  unfold takeEscape
  rw [hfeed]
  exact hread

/-! ## Escaped characters -/

theorem valueIn_append (base : Nat) (digits : List Char) (d : Char) :
    valueIn base (digits ++ [d]) = base * valueIn base digits + valueIn base [d] := by
  unfold valueIn
  rw [List.foldl_append]
  simp

theorem valueIn_zeros (base n : Nat) (digits : List Char) :
    valueIn base (List.replicate n '0' ++ digits) = valueIn base digits := by
  unfold valueIn
  rw [List.foldl_append]
  congr 1
  induction n with
  | zero => rfl
  | succ n ih => simpa [List.replicate_succ] using ih

/-- The digits of a number in base sixteen, in capital letters. -/
theorem hexDigits_natNumeral (n : Nat) :
    (∀ d ∈ (natNumeral 16 n).map Char.toUpper, isHex d = true ∧ TakesColumn d) ∧
      valueIn 16 ((natNumeral 16 n).map Char.toUpper) = n := by
  have hdigit : ∀ k < 16, isHex (Nat.digitChar k).toUpper = true ∧
      isBreak (Nat.digitChar k).toUpper = false ∧ (Nat.digitChar k).toUpper ≠ byteOrderMark ∧
      valueIn 16 [(Nat.digitChar k).toUpper] = k := by
    decide +kernel
  induction n using Nat.strongRecOn with
  | ind n ih =>
    unfold natNumeral at ih ⊢
    by_cases hlt : n < 16
    · obtain ⟨hhex, hbreak, hmark, hvalue⟩ := hdigit n hlt
      rw [Nat.toDigits_of_lt_base hlt]
      refine ⟨fun d hd => ?_, hvalue⟩
      rw [List.mem_singleton.mp hd]
      exact ⟨hhex, hbreak, hmark⟩
    · obtain ⟨hhex, hbreak, hmark, hvalue⟩ := hdigit (n % 16) (Nat.mod_lt n (by decide))
      obtain ⟨hall, hfront⟩ := ih (n / 16) (by omega)
      rw [Nat.toDigits_of_base_le (by decide) (by omega), List.map_append, List.map_singleton]
      refine ⟨fun d hd => ?_, ?_⟩
      · rcases List.mem_append.mp hd with hd | hd
        · exact hall d hd
        · rw [List.mem_singleton.mp hd]
          exact ⟨hhex, hbreak, hmark⟩
      · rw [valueIn_append, hfront, hvalue]
        exact Nat.div_add_mod n 16

/-- A code point as an escape is read as its character. -/
theorem ReadsQuoted.codeEscape (c : Char) (h : ReadsQuoted '"' text s rest) :
    ReadsQuoted '"' ('\\' :: (codeEscape c.toNat ++ text)) (c :: s) rest := by
  obtain ⟨hhex, hvalue⟩ := hexDigits_natNumeral c.toNat
  have hzero : isHex '0' = true ∧ TakesColumn '0' := ⟨rfl, rfl, by decide⟩
  -- the digits are filled up to the length that their kind of escape has
  have hpadded {kind : Char} {width : Nat} (hkind : TakesColumn kind)
      (hletter : escapeOf? kind = none) (hcount : escapeDigits? kind = some width)
      (hwidth : 0 < width) (hfits : c.toNat < 16 ^ width) :
      ReadsQuoted '"' ('\\' :: (kind :: padded width ((natNumeral 16 c.toNat).map Char.toUpper) ++
        text)) (c :: s) rest := by
    have hlength : ((natNumeral 16 c.toNat).map Char.toUpper).length ≤ width := by
      rw [List.length_map]
      exact (Nat.length_toDigits_le_iff (by decide) hwidth).mpr hfits
    have hpad : (padded width ((natNumeral 16 c.toNat).map Char.toUpper)).length = width := by
      rw [padded, List.length_append, List.length_replicate, Nat.sub_add_cancel hlength]
    refine ReadsQuoted.code hkind hletter (hcount.trans (congrArg some hpad.symm)) ?_ ?_ h
    · intro d hd
      rcases List.mem_append.mp hd with hd | hd
      · rw [List.eq_of_mem_replicate hd]
        exact hzero
      · exact hhex d hd
    · rw [padded, valueIn_zeros, hvalue]
  have hbound : c.toNat < 0x110000 := by
    have hvalid : c.toNat < 0xd800 ∨ 0xdfff < c.toNat ∧ c.toNat < 0x110000 := c.valid
    omega
  unfold Yaml.codeEscape
  dsimp only
  split
  · next hlt =>
    exact hpadded ⟨rfl, by decide⟩ rfl rfl (by decide) (Nat.lt_of_lt_of_le hlt (by decide))
  split
  · next hlt =>
    exact hpadded ⟨rfl, by decide⟩ rfl rfl (by decide) (Nat.lt_of_lt_of_le hlt (by decide))
  · exact hpadded ⟨rfl, by decide⟩ rfl rfl (by decide) (Nat.lt_of_lt_of_le hbound (by decide))

theorem mem_of_lookup {α β : Type} [BEq α] [LawfulBEq α] {l : List (α × β)} {a : α} {b : β}
    (h : l.lookup a = some b) : (a, b) ∈ l := by
  obtain ⟨l₁, l₂, rfl, -⟩ := List.lookup_eq_some_iff.mp h
  exact List.mem_append_right l₁ List.mem_cons_self

/-- A letter that escapes a character is read as that character. -/
theorem escapeOf?_of_escapeLetter? {letter : Char} (h : escapeLetter? c = some letter) :
    escapeOf? letter = some c ∧ isBreak letter = false := by
  have hmem := mem_of_lookup h
  have hread : escapeOf? (c.toNat, letter).2 = some (Char.ofNat (c.toNat, letter).1) ∧
      isBreak (c.toNat, letter).2 = false := by
    revert hmem
    generalize (c.toNat, letter) = p
    revert p
    decide
  rwa [Char.ofNat_toNat] at hread

/-- **The escape of a character is read as that character.** -/
theorem ReadsQuoted.escapedChar (c : Char) (h : ReadsQuoted '"' text s rest) :
    ReadsQuoted '"' (escapeOf c ++ text) (c :: s) rest := by
  unfold escapeOf
  cases hletter : escapeLetter? c with
  | some letter =>
    obtain ⟨hread, hbreak⟩ := escapeOf?_of_escapeLetter? hletter
    exact h.letter hbreak hread
  | none => exact h.codeEscape c

/-! ## Texts -/

/-- A character that double quotes hold as it is. -/
theorem of_isUnescaped (h : isUnescaped c = true) :
    c ≠ '"' ∧ c ≠ '\\' ∧ (c = ' ' ∨ isSpacing c = false) := by
  simp only [isUnescaped, Bool.or_eq_true, Bool.and_eq_true, decide_eq_true_eq,
    Bool.not_eq_true'] at h
  rcases h with ⟨⟨⟨hlow, hhigh⟩, hquote⟩, hslash⟩ | ⟨⟨hrange, hbreak⟩, -⟩
  · refine ⟨hquote, hslash, ?_⟩
    by_cases hspace : c = ' '
    · exact .inl hspace
    · have hne : c.toNat ≠ 0x20 := fun hc => hspace (Char.toNat_inj.mp hc)
      exact .inr (isSpacing_of_visible (by omega) hhigh)
  · have hother (d : Char) (hd : d.toNat < 0xa0) : c ≠ d := by
      rintro rfl
      omega
    refine ⟨hother '"' (by decide), hother '\\' (by decide), .inr ?_⟩
    rw [isSpacing, hbreak, decide_eq_false (hother ' ' (by decide)),
      decide_eq_false (hother '\t' (by decide))]
    rfl

/-- What stands between double quotes for `s` up to the closing quote: it is read as `s`, it starts
with no line break, and if `s` starts with a space that may be escaped too, unless the line is full
there. -/
structure ReadsEscaped (full : Bool) (text s rest : List Char) : Prop where
  reads : ReadsQuoted '"' text s rest
  goesOn : GoesOn text
  head : s.head? ≠ some ' ' → ∃ c t, text = c :: t ∧ isSpacing c = false
  space : s.head? = some ' ' → full = false → ReadsQuoted '"' ('\\' :: text) s rest

theorem ReadsEscaped.close (full : Bool) (rest : List Char) :
    ReadsEscaped full ('"' :: rest) [] rest where
  reads := ReadsQuoted.close rfl fun h => absurd h (by decide)
  goesOn := goesOn_cons rfl rest
  head _ := ⟨'"', rest, rfl, rfl⟩
  space h := nomatch h

/-- A text that starts with an escape. -/
theorem ReadsEscaped.of_slash {full : Bool} (hfull : s.head? = some ' ' → full = true)
    (h : ReadsQuoted '"' ('\\' :: text) s rest) : ReadsEscaped full ('\\' :: text) s rest where
  reads := h
  goesOn := goesOn_cons rfl text
  head _ := ⟨'\\', text, rfl, rfl⟩
  space hs hnot := absurd ((hfull hs).symm.trans hnot) (by decide)

/-- A character as it is. -/
theorem ReadsEscaped.unescaped {full : Bool} (full' : Bool) (hc : isUnescaped c = true)
    (h : ReadsEscaped full text s rest) : ReadsEscaped full' (c :: text) (c :: s) rest := by
  obtain ⟨hquote, hslash, rfl | hspacing⟩ := of_isUnescaped hc
  · exact ⟨h.reads.space rfl h.goesOn, h.goesOn.space, fun hs => absurd rfl hs,
      fun _ _ => h.reads.letter rfl rfl⟩
  · refine ⟨h.reads.char hspacing hquote fun _ => hslash, goesOn_cons hspacing text,
      fun _ => ⟨c, text, rfl, hspacing⟩, fun hs => ?_⟩
    rw [Option.some.inj hs] at hspacing
    cases hspacing

/-- An escaped line break in front of a text. -/
theorem ReadsEscaped.freshLine {f : Folding} {full : Bool} (hindent : 0 < f.indent)
    (hfull : s.head? = some ' ' → full = false) (h : ReadsEscaped full text s rest) :
    ReadsQuoted '"' (escapedFreshLine f s.head? ++ text) s rest := by
  unfold escapedFreshLine
  by_cases hs : s.head? = some ' '
  · rw [if_pos hs, List.append_assoc]
    exact (h.space hs (hfull hs)).escapedBreak hindent rfl
  · obtain ⟨c, t, rfl, hc⟩ := h.head hs
    rw [if_neg hs, List.append_nil]
    exact h.reads.escapedBreak hindent hc

theorem escapeOf_eq (c : Char) : ∃ t, escapeOf c = '\\' :: t := by
  unfold escapeOf
  split <;> exact ⟨_, rfl⟩

/-- A character that is not written as it is. -/
theorem ReadsEscaped.escaped {full : Bool} {c : Char} (hc : ¬isUnescaped c = true)
    (h : ReadsQuoted '"' text s rest) : ReadsEscaped full (escapeOf c ++ text) (c :: s) rest := by
  have hspace : (c :: s).head? ≠ some ' ' := by
    intro hs
    rw [Option.some.inj hs] at hc
    exact hc rfl
  have hread := h.escapedChar c
  obtain ⟨t, hslash⟩ := escapeOf_eq c
  rw [hslash] at hread ⊢
  exact ReadsEscaped.of_slash (fun hs => absurd hs hspace) hread

/-- What is written of a text behind the pending characters is read as that text. A line of nothing
but the indentation and an escaped space must not be full. -/
theorem escapeText_reads {f : Folding} (hindent : 0 < f.indent)
    (hroom : f.isFull (f.indent + 1) = false) (rest s : List Char) (inside : Bool) (column : Nat)
    (pending : List Char) : ∃ out, escapeText f inside column pending s = pending ++ out ∧
      ReadsEscaped (f.isFull (column + pending.length)) (out ++ '"' :: rest) s rest := by
  induction s generalizing inside column pending with
  | nil => exact ⟨[], by rw [escapeText, List.append_nil], ReadsEscaped.close _ rest⟩
  | cons c s ih =>
    rw [escapeText]
    by_cases hc : isUnescaped c = true
    · rw [if_pos hc]
      split
      · next hbreak =>
        obtain ⟨out, htext, hout⟩ := ih true (escapedFreshColumn f (some c)) [c]
        have hfull : f.isFull (column + pending.length) = true := (Bool.and_eq_true_iff.mp hbreak).2
        have hline : ReadsQuoted '"' (escapedFreshLine f (some c) ++ (c :: (out ++ '"' :: rest)))
            (c :: s) rest :=
          (hout.unescaped false hc).freshLine hindent fun _ => rfl
        refine ⟨escapedFreshLine f (some c) ++ c :: out, ?_, ?_⟩
        · rw [htext, List.append_assoc]
          rfl
        · rw [hfull, List.append_assoc]
          exact ReadsEscaped.of_slash (fun _ => rfl) hline
      · obtain ⟨out, htext, hout⟩ := ih true column (pending ++ [c])
        refine ⟨c :: out, ?_, hout.unescaped _ hc⟩
        rw [htext, List.append_assoc]
        rfl
    · rw [if_neg hc]
      dsimp only
      split
      · obtain ⟨out, htext, hout⟩ := ih true (escapedFreshColumn f s.head?) []
        have hfull : s.head? = some ' ' →
            f.isFull (escapedFreshColumn f s.head?) = false := by
          intro hs
          rw [escapedFreshColumn, if_pos hs]
          exact hroom
        refine ⟨escapeOf c ++ escapedFreshLine f s.head? ++ out, ?_, ?_⟩
        · rw [htext]
          simp only [List.append_assoc, List.nil_append]
        · rw [List.append_assoc, List.append_assoc]
          exact ReadsEscaped.escaped hc (hout.freshLine hindent hfull)
      · obtain ⟨out, htext, hout⟩ :=
          ih true (column + (pending ++ escapeOf c).length) []
        refine ⟨escapeOf c ++ out, ?_, ?_⟩
        · rw [htext]
          simp only [List.append_assoc, List.nil_append]
        · rw [List.append_assoc]
          exact ReadsEscaped.escaped hc hout.reads

/-- **A text in double quotes is read as that text.** -/
theorem readsQuoted_doubleQuoted {f : Folding} (hindent : 0 < f.indent)
    (hroom : f.isFull (f.indent + 1) = false) (column : Nat) (s rest : List Char) :
    ∃ text, doubleQuoted f column s ++ rest = '"' :: text ∧ ReadsQuoted '"' text s rest := by
  obtain ⟨out, htext, hout⟩ := escapeText_reads hindent hroom rest s false (column + 1) []
  refine ⟨out ++ '"' :: rest, ?_, hout.reads⟩
  rw [doubleQuoted, htext]
  simp

end GrammarAudit.Yaml
