import GrammarAudit.Proofs.Json.NumberText
import GrammarAudit.Proofs.Yaml.Plain

/-!
# What spellings stand for

Truth values and numbers are written without quotes, and their spellings stand for just these
values. A floating-point number is written with a point, with digits on both sides of it, and maybe
with an exponent; such a spelling stands for the number that its digits and its exponent give.

- `Parts`: the digits around the point and the exponent.
- `exists_parts`: what is written of a floating-point number.
- `plainKind_signed`: which spellings are numbers.
- `ofPlain_decimal`, `ofPlain_realText`, `ofPlain_bool`: the values of spellings.
- `PlainWord`, `plainWord_decimal`, `plainWord_realText`: numbers can stand without quotes.
-/

namespace GrammarAudit.Yaml

open Text
open Json (decimalValue IsWhole Significant)

/-! ## Parts of a number -/

/-- The parts of the text of a floating-point number: the digits before the point and behind it, and
the exponent. -/
structure Parts where
  whole : List Char
  fraction : List Char
  exponent : Option Int

/-- An exponent as it is written. -/
def exponentText : Option Int → List Char
  | none => []
  | some e => 'e' :: (if e < 0 then '-' else '+') :: padded 2 (natNumeral 10 e.natAbs)

namespace Parts

/-- The parts as they are written. -/
def text (p : Parts) : List Char :=
  p.whole ++ '.' :: (p.fraction ++ exponentText p.exponent)

/-- The number that the parts give. -/
def value (p : Parts) : Double :=
  .ofDecimal false (decimalValue (p.whole ++ p.fraction)) (p.exponent.getD 0 - p.fraction.length)

/-- There are digits on both sides of the point. -/
structure WellFormed (p : Parts) : Prop where
  whole : IsWhole p.whole
  fraction : p.fraction ≠ []
  digits : ∀ c ∈ p.fraction, c.isDigit = true

end Parts

theorem noDigit_exponentText (e : Option Int) : Json.NoDigit (exponentText e) := by
  intro c hc
  cases e with
  | none => cases hc
  | some e =>
    cases hc
    rfl

theorem readExponent_exponentText (e : Option Int) :
    Json.readExponent (exponentText e) = (e, []) := by
  cases e with
  | none => rfl
  | some e =>
    have hend : Json.NoDigit [] := fun _ hc => nomatch hc
    have h := Json.readExponent_padded e hend
    rwa [List.append_nil] at h

/-- The parts of a number are read to the number that they give. -/
theorem readUnsigned?_parts {p : Parts} (hp : p.WellFormed) :
    Json.readUnsigned? false p.text = some (.num (.real p.value), []) := by
  have hpoint : Json.NoDigit ('.' :: (p.fraction ++ exponentText p.exponent)) := by
    intro c hc
    cases hc
    rfl
  rw [Parts.text, Json.readUnsigned?_eq false hp.whole hpoint
    (Json.readFraction_point hp.fraction hp.digits (noDigit_exponentText _))
    (readExponent_exponentText p.exponent), if_neg fun h => hp.fraction h.1]
  rfl

/-- Digits and an exponent give the same number as with a zero behind a point. -/
theorem readUnsigned?_whole {whole : List Char} (hwhole : IsWhole whole)
    (hpos : 0 < decimalValue whole) (e : Int) :
    Json.readUnsigned? false (whole ++ exponentText (some e)) =
      some (.num (.real (Parts.value ⟨whole, ['0'], some e⟩)), []) := by
  have hletter : ∀ c ∈ (exponentText (some e)).head?, c ≠ '.' := by
    intro c hc
    cases hc
    decide
  have hvalue : decimalValue (whole ++ ['0']) = decimalValue whole * 10 ^ 1 :=
    Json.decimalValue_append_zeros whole 1
  rw [Json.readUnsigned?_eq false hwhole (noDigit_exponentText _)
    (Json.readFraction_of_follows hletter) (readExponent_exponentText (some e)),
    if_neg fun h => nomatch h.2]
  have hsame : Double.ofDecimal false (decimalValue (whole ++ [])) (e - 0) =
      Parts.value ⟨whole, ['0'], some e⟩ := by
    rw [Parts.value, hvalue, Int.sub_zero, List.append_nil]
    exact (Double.ofDecimal_mul_pow false hpos 1 e).symm
  exact congrArg (fun x => some (Json.num (.real x), [])) hsame

/-! ## Written numbers -/

/-- Digits with a point, which is put in before the exponent where there is none. -/
def withPoint (digits : List Char) : List Char :=
  if '.' ∈ digits then digits
  else digits.takeWhile (· ≠ 'e') ++ ".0".toList ++ digits.dropWhile (· ≠ 'e')

theorem not_mem_digits {digits : List Char} {c : Char} (hdigits : ∀ d ∈ digits, d.isDigit = true)
    (hc : c.isDigit = false) : c ∉ digits :=
  fun hmem => Bool.false_ne_true (hc.symm.trans (hdigits c hmem))

theorem isDigit_of_isWhole {whole : List Char} (h : IsWhole whole) :
    ∀ c ∈ whole, c.isDigit = true := by
  rcases h with rfl | h
  · intro c hc
    rw [List.mem_singleton.mp hc]
    rfl
  · exact h.isDigit

theorem isDigit_padded (n : Nat) : ∀ c ∈ padded 2 (natNumeral 10 n), c.isDigit = true :=
  fun _ hc => (List.mem_append.mp hc).elim Json.isDigit_of_mem_zeros Json.isDigit_of_mem_natNumeral

theorem withPoint_text (p : Parts) : withPoint p.text = p.text :=
  if_pos (List.mem_append_right _ List.mem_cons_self)

theorem withPoint_whole {whole : List Char} (hwhole : IsWhole whole) (e : Int) :
    withPoint (whole ++ exponentText (some e)) = Parts.text ⟨whole, ['0'], some e⟩ := by
  have hdigits := isDigit_of_isWhole hwhole
  have hletters : ∀ c ∈ whole, decide (c ≠ 'e') = true := fun c hc =>
    decide_eq_true fun h => not_mem_digits hdigits (c := 'e') rfl (h ▸ hc)
  have hpoint : '.' ∉ whole ++ exponentText (some e) := by
    rw [List.mem_append, not_or]
    refine ⟨not_mem_digits hdigits rfl, ?_⟩
    show '.' ∉ 'e' :: (if e < 0 then '-' else '+') :: padded 2 (natNumeral 10 e.natAbs)
    simp only [List.mem_cons, not_or]
    refine ⟨by decide, by split <;> decide, not_mem_digits (isDigit_padded _) rfl⟩
  rw [withPoint, if_neg hpoint, List.takeWhile_append_of_pos hletters,
    List.dropWhile_append_of_pos hletters]
  simp [exponentText, Parts.text]

/-- A decimal that is written out in full has a point. -/
theorem exists_parts_positional {digits : List Char} (h : Significant digits) (point : Int) :
    ∃ p : Parts, p.WellFormed ∧ Double.positional digits point = p.text := by
  have hzeros (k : Nat) : ∀ c ∈ List.replicate k '0', c.isDigit = true :=
    fun c hc => Json.isDigit_of_mem_zeros hc
  unfold Double.positional
  split
  · refine ⟨⟨['0'], List.replicate (-point).toNat '0' ++ digits, none⟩, ⟨.inl rfl, ?_, ?_⟩, ?_⟩
    · exact List.append_ne_nil_of_right_ne_nil _ h.ne_nil
    · exact fun c hc => (List.mem_append.mp hc).elim (hzeros _ c) (h.isDigit c)
    · simp [Parts.text, exponentText]
  split
  · refine ⟨⟨digits ++ List.replicate (point.toNat - digits.length) '0', ['0'], none⟩,
      ⟨.inr (h.append (hzeros _)), List.cons_ne_nil _ _, hzeros 1⟩, ?_⟩
    simp [Parts.text, exponentText]
  · refine ⟨⟨digits.take point.toNat, digits.drop point.toNat, none⟩,
      ⟨.inr (h.take (by omega)), ?_, fun c hc => h.isDigit c (List.mem_of_mem_drop hc)⟩, ?_⟩
    · rw [Ne, List.drop_eq_nil_iff]
      omega
    · simp [Parts.text, exponentText]

/-- A positive decimal is written with a point, or as digits and an exponent. -/
theorem decimalText_cases {d : Decimal} (hd : 0 < d.digits) :
    (∃ p : Parts, p.WellFormed ∧ Double.decimalText d = p.text) ∨
      ∃ e, Double.decimalText d = natNumeral 10 d.digits ++ exponentText (some e) := by
  have hdigits := Json.significant_natNumeral hd
  unfold Double.decimalText
  dsimp only
  generalize natNumeral 10 d.digits = digits at *
  split
  · exact .inl (exists_parts_positional hdigits _)
  · generalize (digits.length : Int) + d.exponent - 1 = e
    unfold Double.scientific
    dsimp only
    by_cases htail : digits.drop 1 = []
    · refine .inr ⟨e, ?_⟩
      have hone : digits.take 1 = digits :=
        List.take_of_length_le (List.drop_eq_nil_iff.mp htail)
      rw [if_pos htail, hone, List.append_nil]
      rfl
    · refine .inl ⟨⟨digits.take 1, digits.drop 1, some e⟩, ⟨.inr (hdigits.take Nat.one_pos), htail,
        fun c hc => hdigits.isDigit c (List.mem_of_mem_drop hc)⟩, ?_⟩
      rw [if_neg htail]
      simp [Parts.text, exponentText]

/-- A finite number is written in parts that give the number. -/
theorem exists_parts {units : Nat} (hformat : (Double.finite false units).InFormat) :
    ∃ p : Parts, p.WellFormed ∧ withPoint (Json.unsignedText units) = p.text ∧
      p.value = .finite false units := by
  have hread := Json.readUnsigned?_unsignedText false hformat Json.follows_nil
  rw [List.append_nil] at hread
  have hvalue {x : Double} (h : Json.readUnsigned? false (Json.unsignedText units) =
      some (.num (.real x), [])) : x = .finite false units := by
    rw [hread] at h
    simpa using h.symm
  by_cases hzero : units = 0
  · have hp : Parts.WellFormed ⟨['0'], ['0'], none⟩ :=
      ⟨.inl rfl, List.cons_ne_nil _ _, fun c hc => Json.isDigit_of_mem_zeros (k := 1) hc⟩
    have htext : Json.unsignedText units = Parts.text ⟨['0'], ['0'], none⟩ := by
      rw [Json.unsignedText, if_pos hzero]
      rfl
    exact ⟨_, hp, by rw [htext, withPoint_text], hvalue (by rw [htext, readUnsigned?_parts hp])⟩
  · have hdigits := Double.digits_shortest_pos (Nat.pos_of_ne_zero hzero) hformat.1
    have htext : Json.unsignedText units = Double.decimalText (Double.shortest units) :=
      if_neg hzero
    rcases decimalText_cases hdigits with ⟨p, hp, hdecimal⟩ | ⟨e, hdecimal⟩
    · rw [hdecimal] at htext
      exact ⟨p, hp, by rw [htext, withPoint_text], hvalue (by rw [htext, readUnsigned?_parts hp])⟩
    · rw [hdecimal] at htext
      have hwhole := Json.isWhole_natNumeral (Double.shortest units).digits
      have hp : Parts.WellFormed ⟨natNumeral 10 (Double.shortest units).digits, ['0'], some e⟩ :=
        ⟨hwhole, List.cons_ne_nil _ _, fun c hc => Json.isDigit_of_mem_zeros (k := 1) hc⟩
      refine ⟨_, hp, by rw [htext, withPoint_whole hwhole], hvalue ?_⟩
      rw [htext, readUnsigned?_whole hwhole (by rwa [Json.decimalValue_natNumeral])]

/-! ## What numbers stand for -/

/-- A text with a minus sign in front where it is negative. -/
def signed (negative : Bool) (s : List Char) : List Char :=
  if negative then '-' :: s else s

section Signed

variable {s : List Char}

/-- The text starts with a digit. -/
def StartsDigit (s : List Char) : Prop :=
  ∃ c t, s = c :: t ∧ c.isDigit = true

theorem startsDigit_of_isWhole {whole : List Char} (h : IsWhole whole) (rest : List Char) :
    StartsDigit (whole ++ rest) := by
  have hdigits := isDigit_of_isWhole h
  cases whole with
  | nil =>
    rcases h with h | h
    · cases h
    · exact absurd rfl h.ne_nil
  | cons c t => exact ⟨c, t ++ rest, rfl, hdigits c List.mem_cons_self⟩

theorem dropSign_signed (hs : StartsDigit s) (negative : Bool) :
    dropSign (signed negative s) = s := by
  obtain ⟨c, t, rfl, hc⟩ := hs
  cases negative with
  | true => rfl
  | false =>
    refine if_neg ?_
    rintro (rfl | rfl)
    · cases hc
    · cases hc

theorem head?_signed (hs : StartsDigit s) (negative : Bool) :
    ((signed negative s).head? = some '-') ↔ negative = true := by
  obtain ⟨c, t, rfl, hc⟩ := hs
  cases negative with
  | true => exact iff_of_true rfl rfl
  | false =>
    refine iff_of_false (fun h => ?_) Bool.false_ne_true
    cases h
    cases hc

/-- No word that stands for a value starts like a number. -/
theorem plainKind_signed (hs : StartsDigit s) (negative : Bool) :
    (isUnsignedInt s = true → plainKind (signed negative s) = .int) ∧
      (isUnsignedInt s = false → isSignedReal s = true →
        plainKind (signed negative s) = .real) := by
  have hhead : ∃ c t, signed negative s = c :: t ∧ (c.isDigit = true ∨ c = '-') := by
    obtain ⟨c, t, rfl, hc⟩ := hs
    cases negative with
    | true => exact ⟨'-', _, rfl, .inr rfl⟩
    | false => exact ⟨c, t, rfl, .inl hc⟩
  have hword (words : List String)
      (h : words.all (fun w => w.toList.head?.all fun c => !c.isDigit && c ≠ '-') = true) :
      words.contains (String.ofList (signed negative s)) = false := by
    obtain ⟨c, t, htext, hc⟩ := hhead
    refine Bool.eq_false_iff.mpr fun hmem => ?_
    have hfirst := List.all_eq_true.mp h _ (List.contains_iff_mem.mp hmem)
    rw [String.toList_ofList, htext] at hfirst
    rcases hc with hc | hc
    · simp [hc] at hfirst
    · simp [hc] at hfirst
  have hdrop := dropSign_signed hs negative
  unfold plainKind
  dsimp only
  rw [hword trueWords (by decide), hword falseWords (by decide), hword nullWords (by decide),
    hword reservedWords (by decide), hdrop]
  constructor
  · intro hint
    rw [hint]
    rfl
  · intro hint hreal
    rw [hint, hreal]
    rfl

end Signed

theorem colonParts_of_not_mem {s : List Char} (h : ':' ∉ s) : colonParts s = [s] := by
  induction s with
  | nil => rfl
  | cons c s ih =>
    rw [List.mem_cons, not_or] at h
    have hrest := ih h.2
    unfold colonParts at hrest ⊢
    rw [List.foldr_cons, hrest, if_neg (Ne.symm h.1)]

theorem isSpacedDigit_of_isDigit {c : Char} (h : c.isDigit = true) : isSpacedDigit c = true := by
  rw [isSpacedDigit, h, Bool.true_or]

/-- Digits that a number may start with, and zero alone, are the spelling of an integer. -/
theorem isUnsignedInt_of_isWhole {whole : List Char} (h : IsWhole whole) :
    isUnsignedInt whole = true := by
  rcases h with rfl | h
  · rfl
  · obtain ⟨hne, hhead, hdigits⟩ := h
    have hcolon : ':' ∉ whole := not_mem_digits hdigits rfl
    cases whole with
    | nil => exact absurd rfl hne
    | cons c t =>
      have hall : (c :: t).all isSpacedDigit = true :=
        List.all_eq_true.mpr fun d hd => isSpacedDigit_of_isDigit (hdigits d hd)
      have hnonzero : startsWithNonzero (c :: t) = true := by
        rw [startsWithNonzero, startsWithDigit, hall, decide_eq_true hhead]
        simp [hdigits c List.mem_cons_self]
      unfold isUnsignedInt
      split
      · next rest hzero =>
        cases hzero
        exact absurd rfl hhead
      · rw [colonParts_of_not_mem hcolon]
        simp [hnonzero]

/-- A point is in no spelling of an integer. -/
theorem isUnsignedInt_of_point {whole rest : List Char} (h : IsWhole whole)
    (hcolon : ':' ∉ rest) : isUnsignedInt (whole ++ '.' :: rest) = false := by
  have hdigits := isDigit_of_isWhole h
  have hnot : ':' ∉ whole ++ '.' :: rest := by
    simp [not_mem_digits hdigits (c := ':') rfl, hcolon]
  have hpoint : (whole ++ '.' :: rest).all isSpacedDigit = false := by
    simp [isSpacedDigit]
  unfold isUnsignedInt
  split
  · next tail hzero =>
    have hwhole : whole = ['0'] := by
      rcases h with h | h
      · exact h
      · have hhead : (whole ++ '.' :: rest).head? = whole.head? :=
          List.head?_append_of_ne_nil _ h.ne_nil
        rw [hzero] at hhead
        exact absurd hhead.symm h.head_ne
    rw [hwhole] at hzero
    cases hzero
    rfl
  · rw [colonParts_of_not_mem hnot]
    simp [startsWithNonzero, startsWithDigit, hpoint]

theorem isExponent_exponentText (e : Option Int) : isExponent (exponentText e) = true := by
  cases e with
  | none => rfl
  | some e =>
    have hdigits : (padded 2 (natNumeral 10 e.natAbs)).all Char.isDigit = true :=
      List.all_eq_true.mpr (isDigit_padded e.natAbs)
    have hne : (padded 2 (natNumeral 10 e.natAbs)).isEmpty = false := by
      rw [List.isEmpty_eq_false_iff]
      exact List.append_ne_nil_of_right_ne_nil _ Nat.toDigits_ne_nil
    simp [exponentText, isExponent, isRun, hdigits, hne]
    omega

/-- Parts of a number are the spelling of a fraction. -/
theorem isSignedReal_parts {p : Parts} (hp : p.WellFormed) : isSignedReal p.text = true := by
  have hdigits := isDigit_of_isWhole hp.whole
  have hbefore : ∀ c ∈ p.whole, (c != '.') = true := by
    intro c hc
    rw [bne_iff_ne]
    rintro rfl
    exact not_mem_digits hdigits rfl hc
  have hwhole : startsWithDigit p.whole = true := by
    obtain ⟨c, t, htext, hc⟩ := startsDigit_of_isWhole hp.whole []
    rw [List.append_nil] at htext
    have hall : p.whole.all isSpacedDigit = true :=
      List.all_eq_true.mpr fun d hd => isSpacedDigit_of_isDigit (hdigits d hd)
    rw [startsWithDigit, hall, htext]
    simpa using hc
  have hfraction : isFraction (p.fraction ++ exponentText p.exponent) = true := by
    have hnone : (exponentText p.exponent).dropWhile isSpacedDigit = exponentText p.exponent := by
      cases p.exponent with
      | none => rfl
      | some e => rfl
    rw [isFraction, List.dropWhile_append_of_pos fun c hc =>
      isSpacedDigit_of_isDigit (hp.digits c hc), hnone, isExponent_exponentText]
  have hpointed : isPointed p.text = true := by
    unfold isPointed Parts.text
    rw [List.takeWhile_append_of_pos hbefore, List.dropWhile_append_of_pos hbefore,
      List.takeWhile_cons_of_neg (by decide), List.dropWhile_cons_of_neg (by decide),
      List.append_nil]
    dsimp only
    rw [colonParts_of_not_mem (not_mem_digits hdigits rfl)]
    simp [hwhole, hfraction]
  show (isPointed p.text || _) = true
  rw [hpointed, Bool.true_or]

/-! ## Values -/

/-- A visible character that is no colon, no underscore and no capital letter, as numbers have
them. -/
def Calm (c : Char) : Prop :=
  (0x20 < c.toNat ∧ c.toNat ≤ 0x7e) ∧ c ≠ ':' ∧ c ≠ '_' ∧ c.toLower = c

theorem calm_of_isDigit {c : Char} (hc : c.isDigit = true) : Calm c := by
  have hrange : 48 ≤ c.toNat ∧ c.toNat ≤ 57 := by
    simp only [Char.isDigit, Bool.and_eq_true, decide_eq_true_eq] at hc
    exact hc
  refine ⟨⟨by omega, by omega⟩, ?_, ?_, dif_neg ?_⟩
  · rintro rfl
    cases hc
  · rintro rfl
    cases hc
  · rintro ⟨hlow, -⟩
    have hlow : 65 ≤ c.toNat := hlow
    omega

theorem calm_parts {p : Parts} (hp : p.WellFormed) : ∀ c ∈ p.text, Calm c := by
  have hexponent : ∀ c ∈ exponentText p.exponent, Calm c := by
    cases p.exponent with
    | none => exact fun c hc => nomatch hc
    | some e =>
      intro c hc
      simp only [exponentText, List.mem_cons] at hc
      rcases hc with rfl | rfl | hc
      · exact ⟨by decide, by decide, by decide, rfl⟩
      · split
        · exact ⟨by decide, by decide, by decide, rfl⟩
        · exact ⟨by decide, by decide, by decide, rfl⟩
      · exact calm_of_isDigit (isDigit_padded _ c hc)
  intro c hc
  simp only [Parts.text, List.mem_append, List.mem_cons] at hc
  rcases hc with hc | rfl | hc | hc
  · exact calm_of_isDigit (isDigit_of_isWhole hp.whole c hc)
  · exact ⟨by decide, by decide, by decide, rfl⟩
  · exact calm_of_isDigit (hp.digits c hc)
  · exact hexponent c hc

theorem filter_underscores {s : List Char} (h : ∀ c ∈ s, Calm c) : s.filter (· != '_') = s :=
  List.filter_eq_self.mpr fun c hc => bne_iff_ne.mpr (h c hc).2.2.1

theorem digitsValue_eq (digits : List Char) : digitsValue digits = decimalValue digits := rfl

/-- An exponent is read to its value. -/
theorem readExponent?_exponentText (e : Option Int) :
    readExponent? (exponentText e) = some (e.getD 0) := by
  cases e with
  | none => rfl
  | some e =>
    have hall : (padded 2 (natNumeral 10 e.natAbs)).all Char.isDigit = true :=
      List.all_eq_true.mpr (isDigit_padded e.natAbs)
    have hne : (padded 2 (natNumeral 10 e.natAbs)).isEmpty = false :=
      List.isEmpty_eq_false_iff.mpr (List.append_ne_nil_of_right_ne_nil _ Nat.toDigits_ne_nil)
    have hvalue : digitsValue (padded 2 (natNumeral 10 e.natAbs)) = e.natAbs := by
      rw [digitsValue_eq, padded, Json.decimalValue_zeros_append, Json.decimalValue_natNumeral]
    have hsign : takeSign ((if e < 0 then '-' else '+') :: padded 2 (natNumeral 10 e.natAbs)) =
        (decide (e < 0), padded 2 (natNumeral 10 e.natAbs)) := by
      by_cases he : e < 0
      · rw [if_pos he, decide_eq_true he]
        rfl
      · rw [if_neg he, decide_eq_false he]
        rfl
    rw [exponentText, readExponent?, if_pos (.inl rfl), hsign]
    dsimp only
    rw [hall, hne, hvalue]
    by_cases he : e < 0
    · rw [decide_eq_true he]
      exact congrArg some (show -(e.natAbs : Int) = e by omega)
    · rw [decide_eq_false he]
      exact congrArg some (show (e.natAbs : Int) = e by omega)

/-- Parts of a number are read to the number that they give. -/
theorem readDecimal?_parts {p : Parts} (hp : p.WellFormed) :
    readDecimal? false p.text = some p.value := by
  have hpoint : Json.NoDigit ('.' :: (p.fraction ++ exponentText p.exponent)) := by
    intro c hc
    cases hc
    rfl
  obtain ⟨hwhole, hafter⟩ :=
    Prod.mk.inj (Json.spanDigits_append (isDigit_of_isWhole hp.whole) hpoint)
  obtain ⟨hfraction, hexponent⟩ :=
    Prod.mk.inj (Json.spanDigits_append hp.digits (noDigit_exponentText p.exponent))
  have hsome : (p.whole.isEmpty && p.fraction.isEmpty) = false := by
    rw [List.isEmpty_eq_false_iff.mpr hp.fraction, Bool.and_false]
  unfold readDecimal? Parts.value Parts.text
  rw [hwhole, hafter]
  simp only [hfraction, hexponent, hsome, readExponent?_exponentText]
  rfl

/-- Parts of a number are the spelling of the number that they give, with its sign. -/
theorem ofPlain_parts {p : Parts} (hp : p.WellFormed) (negative : Bool) :
    Scalar.ofPlain (signed negative p.text) =
      .ok (.real (if negative then p.value.neg else p.value)) := by
  have hcalm := calm_parts hp
  have hstart : StartsDigit p.text := startsDigit_of_isWhole hp.whole _
  have hcolon : ':' ∉ p.text := fun h => (hcalm _ h).2.1 rfl
  have hbehind : ':' ∉ p.fraction ++ exponentText p.exponent := fun h =>
    hcolon (List.mem_append_right _ (List.mem_cons_of_mem _ h))
  have hkind : plainKind (signed negative p.text) = .real :=
    (plainKind_signed hstart negative).2 (isUnsignedInt_of_point hp.whole hbehind)
      (isSignedReal_parts hp)
  have hlower : p.text.map Char.toLower = p.text :=
    (List.map_congr_left fun c hc => (hcalm c hc).2.2.2).trans (List.map_id' p.text)
  have hword (word : String) (h : (word.toList.head?.all fun c => !c.isDigit) = true) :
      p.text ≠ word.toList := by
    obtain ⟨c, t, htext, hc⟩ := hstart
    intro hsame
    rw [← hsame, htext] at h
    simp [hc] at h
  have hread : unsignedReal p.text = .ok p.value := by
    rw [unsignedReal, if_neg (hword ".inf" (by decide)), if_neg (hword ".nan" (by decide)),
      if_neg hcolon, readDecimal?_parts hp]
  rw [Scalar.ofPlain, hkind]
  show realValue _ = _
  rw [realValue, dropSign_signed hstart, filter_underscores hcalm, hlower, hread]
  -- the number itself is not to be computed here
  generalize p.value = x
  by_cases hnegative : negative = true
  · exact congrArg (fun x => Except.ok (Scalar.real x))
      ((if_pos ((head?_signed hstart negative).mpr hnegative)).trans (if_pos hnegative).symm)
  · exact congrArg (fun x => Except.ok (Scalar.real x))
      ((if_neg (mt (head?_signed hstart negative).mp hnegative)).trans (if_neg hnegative).symm)

theorem digitsIn_ten {digits : List Char} (hne : digits ≠ [])
    (hdigits : ∀ c ∈ digits, c.isDigit = true) :
    digitsIn 10 digits = .ok (decimalValue digits) := by
  have hvalue (n : Nat) : digits.foldl (fun n c =>
      10 * n + (if c.isDigit then c.toNat - '0'.toNat else c.toLower.toNat - 'a'.toNat + 10)) n =
      digits.foldl (fun n c => 10 * n + (c.toNat - '0'.toNat)) n := by
    induction digits generalizing n with
    | nil => rfl
    | cons c digits ih =>
      rw [List.foldl_cons, List.foldl_cons, if_pos (hdigits c List.mem_cons_self)]
      cases digits with
      | nil => rfl
      | cons d digits =>
        exact ih (List.cons_ne_nil d digits) (fun e he => hdigits e (List.mem_cons_of_mem c he)) _
  have hbase : ∀ c ∈ digits, isDigitIn 10 c = true := by
    intro c hc
    have hrange := hdigits c hc
    rw [isDigitIn, if_pos hrange]
    simp only [Char.isDigit, Bool.and_eq_true, decide_eq_true_eq] at hrange
    have hhigh : c.toNat ≤ 57 := hrange.2
    exact decide_eq_true (show c.toNat - 48 < 10 by omega)
  have hrun : isRun (isDigitIn 10) digits = true := by
    rw [isRun, List.isEmpty_eq_false_iff.mpr hne, List.all_eq_true.mpr hbase]
    rfl
  rw [digitsIn, if_pos hrun]
  exact congrArg Except.ok (hvalue 0)

theorem unsignedInt_of_isWhole {whole : List Char} (h : IsWhole whole) :
    unsignedInt whole = .ok (decimalValue whole) := by
  rcases h with rfl | h
  · rfl
  · obtain ⟨hne, hhead, hdigits⟩ := h
    have hzero (rest : List Char) : whole ≠ '0' :: rest := by
      rintro rfl
      exact hhead rfl
    have hparts := colonParts_of_not_mem (not_mem_digits hdigits (c := ':') rfl)
    unfold unsignedInt
    split
    · exact absurd rfl (hzero _)
    · exact absurd rfl (hzero _)
    · exact absurd rfl (hzero _)
    · exact absurd rfl (hzero _)
    · rw [hparts, List.foldlM_cons, digitsIn_ten hne hdigits]
      exact congrArg Except.ok (Nat.zero_add _)

/-- Digits in front of which no zero stands are the spelling of an integer, with its sign. -/
theorem ofPlain_whole {whole : List Char} (h : IsWhole whole) (negative : Bool) :
    Scalar.ofPlain (signed negative whole) =
      .ok (.int (if negative then -(decimalValue whole : Int) else decimalValue whole)) := by
  have hdigits := isDigit_of_isWhole h
  have hstart : StartsDigit whole := by
    have hstart := startsDigit_of_isWhole h []
    rwa [List.append_nil] at hstart
  have hkind : plainKind (signed negative whole) = .int :=
    (plainKind_signed hstart negative).1 (isUnsignedInt_of_isWhole h)
  have hread := unsignedInt_of_isWhole h
  rw [Scalar.ofPlain, hkind]
  show intValue _ = _
  rw [intValue, dropSign_signed hstart,
    filter_underscores fun c hc => calm_of_isDigit (hdigits c hc), hread]
  by_cases hnegative : negative = true
  · exact congrArg (fun n => Except.ok (Scalar.int n))
      ((if_pos ((head?_signed hstart negative).mpr hnegative)).trans (if_pos hnegative).symm)
  · exact congrArg (fun n => Except.ok (Scalar.int n))
      ((if_neg (mt (head?_signed hstart negative).mp hnegative)).trans (if_neg hnegative).symm)

/-- **An integer is the spelling of itself.** -/
theorem ofPlain_decimal (n : Int) : Scalar.ofPlain (decimal n).toList = .ok (.int n) := by
  rw [decimal, String.toList_ofList]
  cases n with
  | ofNat n =>
    have h := ofPlain_whole (Json.isWhole_natNumeral n) false
    rwa [Json.decimalValue_natNumeral] at h
  | negSucc n =>
    have h := ofPlain_whole (Json.isWhole_natNumeral (n + 1)) true
    rwa [Json.decimalValue_natNumeral] at h

theorem withPoint_signed (negative : Bool) (s : List Char) :
    withPoint (signed negative s) = signed negative (withPoint s) := by
  cases negative with
  | false => rfl
  | true =>
    show withPoint ('-' :: s) = '-' :: withPoint s
    by_cases h : '.' ∈ s
    · rw [withPoint, if_pos (List.mem_cons_of_mem _ h), withPoint, if_pos h]
    · rw [withPoint, if_neg (by simp [h]), withPoint, if_neg h,
        List.takeWhile_cons_of_pos (by decide), List.dropWhile_cons_of_pos (by decide)]
      rfl

/-- A finite number is written as its parts, with its sign. -/
theorem realText_finite {negative : Bool} {units : Nat}
    (hformat : (Double.finite negative units).InFormat) :
    ∃ p : Parts, p.WellFormed ∧ realText (.finite negative units) = signed negative p.text ∧
      p.value = .finite false units := by
  obtain ⟨p, hp, htext, hvalue⟩ := exists_parts hformat
  refine ⟨p, hp, ?_, hvalue⟩
  rw [← htext, ← withPoint_signed]
  show withPoint (Double.finite negative units).text.toList = _
  exact congrArg withPoint (Json.numberText_finite negative units)

/-- **A floating-point number is read to itself.** -/
theorem ofPlain_realText {x : Double} (hx : x.InFormat) :
    Scalar.ofPlain (realText x) = .ok (.real x) := by
  cases x with
  | finite negative units =>
    obtain ⟨p, hp, htext, hvalue⟩ := realText_finite hx
    rw [htext, ofPlain_parts hp, hvalue]
    cases negative
    · rfl
    · rfl
  | infinite negative =>
    cases negative
    · rfl
    · rfl
  | nan => rfl

/-- **A truth value is the spelling of itself.** -/
theorem ofPlain_bool (b : Bool) :
    Scalar.ofPlain (if b then "true".toList else "false".toList) = .ok (.bool b) := by
  cases b
  · rfl
  · rfl

/-! ## Numbers stand without quotes -/

/-- A word that can stand without quotes. -/
structure PlainWord (s : List Char) : Prop extends PlainForm s where
  noSpace : ' ' ∉ s

theorem plainWord_iff {s : List Char} : PlainWord s ↔
    (s ≠ [] ∧ s.all (fun c => !isSpecial c && !breaksLine c) = true) ∧ s.head? ≠ some ' ' ∧
      s.getLast? ≠ some ' ' ∧ startsLikeMark s = false ∧ holdsMark s = false ∧ ' ' ∉ s := by
  have hcalm : s.all (fun c => !isSpecial c && !breaksLine c) = true ↔
      ∀ c ∈ s, isSpecial c = false ∧ breaksLine c = false := by simp
  rw [hcalm]
  constructor
  · intro h
    exact ⟨⟨h.ne_nil, h.calm⟩, h.head, h.last, h.start, h.marks, h.noSpace⟩
  · rintro ⟨⟨hne, hcalm⟩, hhead, hlast, hstart, hmarks, hspace⟩
    exact ⟨⟨hne, hcalm, hhead, hlast, hstart, hmarks⟩, hspace⟩

instance (s : List Char) : Decidable (PlainWord s) :=
  decidable_of_iff _ plainWord_iff.symm

theorem PlainWord.isSpacing_eq_false {s : List Char} (h : PlainWord s) :
    ∀ c ∈ s, isSpacing c = false := by
  intro c hc
  refine (h.words.calm c hc ?_).1
  rintro rfl
  exact h.noSpace hc

theorem isSpecial_of_visible {c : Char} (h : 0x20 < c.toNat ∧ c.toNat ≤ 0x7e) :
    isSpecial c = false := by
  have hlow : 0x20 ≤ c.toNat := Nat.le_of_lt h.1
  simp [isSpecial, hlow, h.2]

theorem hasPair_of_not_mem {d : Char} {q : Char → Bool} {s : List Char} (h : d ∉ s) :
    hasPair (fun c => decide (c = d)) q s = false := by
  induction s with
  | nil => rfl
  | cons c s ih =>
    rw [List.mem_cons, not_or] at h
    cases s with
    | nil => rfl
    | cons e s => rw [hasPair, ih h.2, decide_eq_false (Ne.symm h.1), Bool.false_and, Bool.or_false]

/-- A number starts with a digit, maybe behind a minus sign, and that is no mark. -/
theorem plainWord_signed {s : List Char} (hs : StartsDigit s) (h : ∀ c ∈ s, Calm c)
    (negative : Bool) : PlainWord (signed negative s) := by
  have hcalm : ∀ c ∈ signed negative s, Calm c := by
    cases negative with
    | false => exact h
    | true =>
      intro c hc
      rcases List.mem_cons.mp hc with rfl | hc
      · exact ⟨by decide, by decide, by decide, rfl⟩
      · exact h c hc
  have hspace : ' ' ∉ signed negative s := fun hmem => absurd (hcalm ' ' hmem).1.1 (by decide)
  have hcolon : ':' ∉ signed negative s := fun hmem => (hcalm ':' hmem).2.1 rfl
  have hstart : startsLikeMark (signed negative s) = false := by
    obtain ⟨c, t, rfl, hc⟩ := hs
    have hne (d : Char) (hd : d.isDigit = false) : c ≠ d := by
      rintro rfl
      exact Bool.false_ne_true (hd.symm.trans hc)
    cases negative with
    | false =>
      simp [signed, startsLikeMark, isFirstIndicator, hne, List.isPrefixOf, eq_comm (a := '-'),
        eq_comm (a := '.')]
    | true =>
      simp [signed, startsLikeMark, isFirstIndicator, hne, List.isPrefixOf, eq_comm (a := '-')]
  refine ⟨⟨?_, fun c hc => ⟨isSpecial_of_visible (hcalm c hc).1, ?_⟩, ?_, ?_, hstart, ?_⟩, hspace⟩
  · obtain ⟨c, t, rfl, -⟩ := hs
    cases negative
    · exact List.cons_ne_nil _ _
    · exact List.cons_ne_nil _ _
  · obtain ⟨hlow, hhigh⟩ := (hcalm c hc).1
    rw [breaksLine, isBreak_of_not_isSpacing (isSpacing_of_visible hlow hhigh), Bool.false_and]
  · exact fun hhead => hspace (List.mem_of_mem_head? hhead)
  · exact fun hlast => hspace (List.mem_of_getLast? hlast)
  · have hlast : (signed negative s).getLast? ≠ some ':' :=
      fun hlast => hcolon (List.mem_of_getLast? hlast)
    rw [holdsMark, hasPair_of_not_mem hcolon, hasPair_of_not_mem hspace, decide_eq_false hlast]
    rfl

/-- **An integer can stand without quotes.** -/
theorem plainWord_decimal (n : Int) : PlainWord (decimal n).toList := by
  have h (n : Nat) (negative : Bool) : PlainWord (signed negative (natNumeral 10 n)) := by
    have hwhole := Json.isWhole_natNumeral n
    have hstart := startsDigit_of_isWhole hwhole []
    rw [List.append_nil] at hstart
    exact plainWord_signed hstart (fun c hc => calm_of_isDigit (isDigit_of_isWhole hwhole c hc))
      negative
  rw [decimal, String.toList_ofList]
  cases n with
  | ofNat n => exact h n false
  | negSucc n => exact h (n + 1) true

/-- **A floating-point number can stand without quotes.** -/
theorem plainWord_realText {x : Double} (hx : x.InFormat) : PlainWord (realText x) := by
  have hword (w : List Char) (h : w ∈ [".nan".toList, ".inf".toList, "-.inf".toList]) :
      PlainWord w := by
    simp only [List.mem_cons, List.not_mem_nil, or_false] at h
    rcases h with rfl | rfl | rfl
    all_goals decide
  cases x with
  | finite negative units =>
    obtain ⟨p, hp, htext, -⟩ := realText_finite hx
    rw [htext]
    exact plainWord_signed (startsDigit_of_isWhole hp.whole _) (calm_parts hp) negative
  | infinite negative =>
    cases negative
    · exact hword _ (by decide)
    · exact hword _ (by decide)
  | nan => exact hword _ (by decide)

/-- **A truth value can stand without quotes.** -/
theorem plainWord_bool (b : Bool) :
    PlainWord (if b then "true".toList else "false".toList) := by
  cases b
  all_goals decide

end GrammarAudit.Yaml
