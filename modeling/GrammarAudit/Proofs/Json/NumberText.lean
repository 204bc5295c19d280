import GrammarAudit.Json.Reader
import GrammarAudit.Json.Writer
import GrammarAudit.Proofs.Number.Shortest
import GrammarAudit.Proofs.Text.Numeral
import Mathlib.Data.List.Basic

/-!
# The text of a number reads back

A number is written as its digits with a point or an exponent in between, and the reader takes the
digits as one whole number and moves the point. For a floating-point number the digits are the
shortest ones, which are read to the number they were found for.

- `Json.Significant`, `Json.IsWhole`: digits without a leading zero, and the ones before the point.
- `Json.readUnsigned?_point`, `Json.readUnsigned?_int`: how the parts of a number are read.
- `Json.readUnsigned?_decimalText`: both ways of writing a decimal are read alike.
- `Json.readAtom?_numberText`: the text of a number is read to that number.
- `Json.StartsAtom`, `Json.startsAtom_numberText`: what the text of a number starts with.
-/

namespace GrammarAudit.Json

open Text

/-! ## Digits -/

theorem decimalValue_append (ds es : List Char) :
    decimalValue (ds ++ es) = decimalValue ds * 10 ^ es.length + decimalValue es := by
  show Nat.ofDigitChars 10 (ds ++ es) 0 = Nat.ofDigitChars 10 ds 0 * 10 ^ es.length +
    Nat.ofDigitChars 10 es 0
  rw [Nat.ofDigitChars_append, Nat.ofDigitChars_eq_ofDigitChars_zero, Nat.mul_comm]

@[simp] theorem decimalValue_zeros (k : Nat) : decimalValue (List.replicate k '0') = 0 := by
  show Nat.ofDigitChars 10 (List.replicate k '0') 0 = 0
  rw [Nat.ofDigitChars_replicate_zero, Nat.mul_zero]

/-- Leading zeros have no value. -/
theorem decimalValue_zeros_append (k : Nat) (ds : List Char) :
    decimalValue (List.replicate k '0' ++ ds) = decimalValue ds := by
  rw [decimalValue_append, decimalValue_zeros, Nat.zero_mul, Nat.zero_add]

/-- Zeros at the end multiply by powers of ten. -/
theorem decimalValue_append_zeros (ds : List Char) (k : Nat) :
    decimalValue (ds ++ List.replicate k '0') = decimalValue ds * 10 ^ k := by
  rw [decimalValue_append, decimalValue_zeros, List.length_replicate, Nat.add_zero]

theorem decimalValue_natNumeral (n : Nat) : decimalValue (natNumeral 10 n) = n :=
  Nat.ofDigitChars_ten_toDigits

theorem isDigit_of_mem_natNumeral {n : Nat} {c : Char} (h : c ∈ natNumeral 10 n) :
    c.isDigit = true :=
  Nat.isDigit_of_mem_toDigits (by decide) (by decide) h

/-- Decimal digits that a number may start with: there are some, the first of them not zero. -/
structure Significant (digits : List Char) : Prop where
  ne_nil : digits ≠ []
  head_ne : digits.head? ≠ some '0'
  isDigit : ∀ c ∈ digits, c.isDigit = true

theorem significant_natNumeral {n : Nat} (hn : 0 < n) : Significant (natNumeral 10 n) where
  ne_nil := Nat.toDigits_ne_nil
  head_ne := head?_natNumeral_ne (by decide) hn
  isDigit _ h := isDigit_of_mem_natNumeral h

namespace Significant

variable {digits : List Char}

theorem take (h : Significant digits) {k : Nat} (hk : 0 < k) : Significant (digits.take k) := by
  obtain ⟨j, rfl⟩ : ∃ j, k = j + 1 := ⟨k - 1, by omega⟩
  obtain ⟨hnil, hhead, hdigits⟩ := h
  cases digits with
  | nil => exact absurd rfl hnil
  | cons c digits =>
    rw [List.take_succ_cons]
    refine ⟨List.cons_ne_nil c _, hhead, fun d hd => hdigits d ?_⟩
    rw [← List.take_succ_cons] at hd
    exact List.mem_of_mem_take hd

theorem append (h : Significant digits) {more : List Char} (hmore : ∀ c ∈ more, c.isDigit = true) :
    Significant (digits ++ more) where
  ne_nil := List.append_ne_nil_of_left_ne_nil h.ne_nil more
  head_ne := by
    rw [List.head?_append_of_ne_nil _ h.ne_nil]
    exact h.head_ne
  isDigit c hc := (List.mem_append.mp hc).elim (h.isDigit c) (hmore c)

end Significant

/-- The digits before the point of a number: zero alone, or digits that a number may start with. -/
def IsWhole (digits : List Char) : Prop :=
  digits = ['0'] ∨ Significant digits

theorem isWhole_natNumeral (n : Nat) : IsWhole (natNumeral 10 n) := by
  rcases Nat.eq_zero_or_pos n with rfl | hn
  · exact .inl rfl
  · exact .inr (significant_natNumeral hn)

theorem isDigit_of_mem_zeros {k : Nat} {c : Char} (h : c ∈ List.replicate k '0') :
    c.isDigit = true := by
  rw [List.eq_of_mem_replicate h]
  rfl

/-! ## The parts of a number -/

/-- No digit comes first. -/
def NoDigit (s : List Char) : Prop :=
  ∀ c ∈ s.head?, c.isDigit = false

/-- What follows a number and is not read as a part of it. -/
def Follows (s : List Char) : Prop :=
  ∀ c ∈ s.head?, c.isDigit = false ∧ c ≠ '.' ∧ c ≠ 'e' ∧ c ≠ 'E'

theorem follows_nil : Follows [] :=
  fun _ hc => nomatch hc

theorem Follows.noDigit {s : List Char} (h : Follows s) : NoDigit s :=
  fun c hc => (h c hc).1

theorem spanDigits_append {digits rest : List Char} (hdigits : ∀ c ∈ digits, c.isDigit = true)
    (hrest : NoDigit rest) : spanDigits (digits ++ rest) = (digits, rest) := by
  unfold spanDigits
  rw [List.takeWhile_append_of_pos hdigits, List.dropWhile_append_of_pos hdigits]
  cases rest with
  | nil => rw [List.takeWhile_nil, List.append_nil, List.dropWhile_nil]
  | cons c rest =>
    have hc : ¬c.isDigit = true := by
      rw [hrest c rfl]
      exact Bool.false_ne_true
    rw [List.takeWhile_cons_of_neg hc, List.append_nil, List.dropWhile_cons_of_neg hc]

theorem readFraction_of_follows {s : List Char} (h : ∀ c ∈ s.head?, c ≠ '.') :
    readFraction s = ([], s) := by
  unfold readFraction
  split
  · exact absurd rfl (h '.' rfl)
  · rfl

theorem readFraction_point {digits rest : List Char} (hne : digits ≠ [])
    (hdigits : ∀ c ∈ digits, c.isDigit = true) (hrest : NoDigit rest) :
    readFraction ('.' :: (digits ++ rest)) = (digits, rest) := by
  show (if (spanDigits (digits ++ rest)).1 = [] then ([], '.' :: (digits ++ rest))
    else spanDigits (digits ++ rest)) = (digits, rest)
  rw [spanDigits_append hdigits hrest]
  exact if_neg hne

theorem readExponent_of_follows {s : List Char} (h : ∀ c ∈ s.head?, c ≠ 'e' ∧ c ≠ 'E') :
    readExponent s = (none, s) := by
  unfold readExponent
  split
  · next c rest =>
    have hc := h c rfl
    rw [if_neg (by simp [hc])]
  · rfl

/-- A fraction is read, and no fraction is read where there is no point. -/
theorem readFraction_optional {fraction rest : List Char}
    (hdigits : ∀ c ∈ fraction, c.isDigit = true) (hrest : NoDigit rest)
    (hpoint : ∀ c ∈ rest.head?, c ≠ '.') :
    readFraction ((if fraction = [] then [] else '.' :: fraction) ++ rest) = (fraction, rest) := by
  by_cases hnone : fraction = []
  · rw [if_pos hnone, hnone]
    exact readFraction_of_follows hpoint
  · rw [if_neg hnone]
    exact readFraction_point hnone hdigits hrest

/-- A signed exponent is read to its value, whatever zeros fill it up. -/
theorem readExponent_padded (e : Int) {rest : List Char} (hrest : NoDigit rest) :
    readExponent ('e' :: (if e < 0 then '-' else '+') ::
      (padded 2 (natNumeral 10 e.natAbs) ++ rest)) = (some e, rest) := by
  have hne : padded 2 (natNumeral 10 e.natAbs) ≠ [] :=
    List.append_ne_nil_of_right_ne_nil _ Nat.toDigits_ne_nil
  have hdigits : ∀ c ∈ padded 2 (natNumeral 10 e.natAbs), c.isDigit = true :=
    fun c hc => (List.mem_append.mp hc).elim isDigit_of_mem_zeros isDigit_of_mem_natNumeral
  have hvalue : decimalValue (padded 2 (natNumeral 10 e.natAbs)) = e.natAbs := by
    unfold padded
    rw [decimalValue_zeros_append, decimalValue_natNumeral]
  have hspan := spanDigits_append hdigits hrest
  generalize padded 2 (natNumeral 10 e.natAbs) = digits at *
  by_cases hneg : e < 0
  · have he : -(e.natAbs : Int) = e := by omega
    rw [if_pos hneg]
    show (if (spanDigits (digits ++ rest)).1 = [] then (none, 'e' :: '-' :: (digits ++ rest))
      else (some (-(decimalValue (spanDigits (digits ++ rest)).1 : Int)),
        (spanDigits (digits ++ rest)).2)) = (some e, rest)
    rw [hspan, if_neg hne, hvalue, he]
  · have he : (e.natAbs : Int) = e := by omega
    rw [if_neg hneg]
    show (if (spanDigits (digits ++ rest)).1 = [] then (none, 'e' :: '+' :: (digits ++ rest))
      else (some (decimalValue (spanDigits (digits ++ rest)).1 : Int),
        (spanDigits (digits ++ rest)).2)) = (some e, rest)
    rw [hspan, if_neg hne, hvalue, he]

/-- A number is read as its digits before the point, its fraction and its exponent. -/
theorem readUnsigned?_eq (negative : Bool) {whole after middle rest fraction : List Char}
    {exponent : Option Int} (hwhole : IsWhole whole) (hafter : NoDigit after)
    (hfraction : readFraction after = (fraction, middle))
    (hexponent : readExponent middle = (exponent, rest)) :
    readUnsigned? negative (whole ++ after) =
      if fraction = [] ∧ exponent = none then
        some (int (if negative then -(decimalValue whole : Int) else decimalValue whole), rest)
      else some (num (.real (.ofDecimal negative (decimalValue (whole ++ fraction))
        (exponent.getD 0 - fraction.length))), rest) := by
  have hne : whole ≠ [] := by
    rcases hwhole with rfl | hwhole
    · exact List.cons_ne_nil _ _
    · exact hwhole.ne_nil
  unfold readUnsigned?
  split
  next front back hparts =>
    have hsplit : (front, back) = (whole, after) := by
      rw [← hparts]
      rcases hwhole with rfl | hwhole
      · rfl
      · split
        · next rest hzero =>
          have hhead : (whole ++ after).head? = whole.head? :=
            List.head?_append_of_ne_nil _ hwhole.ne_nil
          rw [hzero] at hhead
          exact absurd hhead.symm hwhole.head_ne
        · exact spanDigits_append hwhole.isDigit hafter
    obtain ⟨rfl, rfl⟩ := Prod.mk.inj hsplit
    rw [if_neg hne, hfraction]
    dsimp only
    rw [hexponent]

/-- Digits before what follows a number are an integer. -/
theorem readUnsigned?_int (negative : Bool) {whole rest : List Char}
    (hwhole : IsWhole whole) (hrest : Follows rest) :
    readUnsigned? negative (whole ++ rest) =
      some (int (if negative then -(decimalValue whole : Int) else decimalValue whole), rest) := by
  rw [readUnsigned?_eq negative hwhole hrest.noDigit
    (readFraction_of_follows fun c hc => (hrest c hc).2.1)
    (readExponent_of_follows fun c hc => (hrest c hc).2.2)]
  exact if_pos ⟨rfl, rfl⟩

/-- Digits on both sides of a point are a floating-point number. -/
theorem readUnsigned?_point (negative : Bool) {whole fraction rest : List Char}
    (hwhole : IsWhole whole) (hne : fraction ≠ [])
    (hdigits : ∀ c ∈ fraction, c.isDigit = true) (hrest : Follows rest) :
    readUnsigned? negative (whole ++ '.' :: (fraction ++ rest)) =
      some (num (.real (.ofDecimal negative (decimalValue (whole ++ fraction))
        (0 - fraction.length))), rest) := by
  have hpoint : NoDigit ('.' :: (fraction ++ rest)) := by
    intro c hc
    cases hc
    rfl
  rw [readUnsigned?_eq negative hwhole hpoint (readFraction_point hne hdigits hrest.noDigit)
    (readExponent_of_follows fun c hc => (hrest c hc).2.2)]
  exact if_neg fun h => hne h.1

/-! ## Decimals -/

open Double (positional scientific decimalText)

section Decimals

variable {digits rest : List Char}

/-- Zeros between the point and the digits. -/
theorem readUnsigned?_zerosBefore (negative : Bool) (h : Significant digits) (k : Nat)
    (hrest : Follows rest) :
    readUnsigned? negative ('0' :: '.' :: List.replicate k '0' ++ digits ++ rest) =
      some (num (.real (.ofDecimal negative (decimalValue digits) (0 - (k + digits.length : Nat)))),
        rest) := by
  have hne : List.replicate k '0' ++ digits ≠ [] := List.append_ne_nil_of_right_ne_nil _ h.ne_nil
  have hdigits : ∀ c ∈ List.replicate k '0' ++ digits, c.isDigit = true :=
    fun c hc => (List.mem_append.mp hc).elim isDigit_of_mem_zeros (h.isDigit c)
  have hvalue : decimalValue (['0'] ++ (List.replicate k '0' ++ digits)) = decimalValue digits :=
    decimalValue_zeros_append (k + 1) digits
  have hlength : (List.replicate k '0' ++ digits).length = k + digits.length := by
    rw [List.length_append, List.length_replicate]
  rw [← hvalue, ← hlength]
  exact readUnsigned?_point negative (.inl rfl) hne hdigits hrest

/-- Zeros between the digits and the point, and one behind it. -/
theorem readUnsigned?_zerosBehind (negative : Bool) (h : Significant digits)
    (hpos : 0 < decimalValue digits) (k : Nat) (hrest : Follows rest) :
    readUnsigned? negative (digits ++ List.replicate k '0' ++ ['.', '0'] ++ rest) =
      some (num (.real (.ofDecimal negative (decimalValue digits) k)), rest) := by
  have hwhole : IsWhole (digits ++ List.replicate k '0') :=
    .inr (h.append fun _ => isDigit_of_mem_zeros)
  have hzero : ∀ c ∈ ['0'], c.isDigit = true := fun c hc => isDigit_of_mem_zeros (k := 1) hc
  have hvalue : decimalValue (digits ++ List.replicate k '0' ++ ['0']) =
      decimalValue digits * 10 ^ (k + 1) := by
    rw [List.append_assoc, ← List.replicate_succ', decimalValue_append_zeros]
  have hplaces : (k : Int) - (k + 1 : Nat) = 0 - ['0'].length := by
    rw [List.length_singleton]
    omega
  rw [← Double.ofDecimal_mul_pow negative hpos (k + 1), ← hvalue, hplaces,
    List.append_assoc _ _ rest]
  exact readUnsigned?_point negative hwhole (List.cons_ne_nil _ _) hzero hrest

/-- The point among the digits. -/
theorem readUnsigned?_pointWithin (negative : Bool) (h : Significant digits) {k : Nat}
    (hk : 0 < k) (hlt : k < digits.length) (hrest : Follows rest) :
    readUnsigned? negative (digits.take k ++ '.' :: digits.drop k ++ rest) =
      some (num (.real (.ofDecimal negative (decimalValue digits)
        (0 - (digits.length - k : Nat)))), rest) := by
  have hne : digits.drop k ≠ [] := by
    rw [Ne, List.drop_eq_nil_iff]
    omega
  have hread := readUnsigned?_point negative (.inr (h.take hk)) hne
    (fun c hc => h.isDigit c (List.mem_of_mem_drop hc)) hrest
  rw [List.take_append_drop, List.length_drop] at hread
  rw [List.append_assoc]
  exact hread

/-- A decimal that is written out in full is read to its value. -/
theorem readUnsigned?_positional (negative : Bool) (h : Significant digits)
    (hpos : 0 < decimalValue digits) (point : Int) (hrest : Follows rest) :
    readUnsigned? negative (positional digits point ++ rest) =
      some (num (.real (.ofDecimal negative (decimalValue digits) (point - digits.length))),
        rest) := by
  unfold positional
  split
  · have hplaces : 0 - ((-point).toNat + digits.length : Nat) = point - digits.length := by omega
    rw [readUnsigned?_zerosBefore negative h _ hrest, hplaces]
  split
  · have hplaces : ((point.toNat - digits.length : Nat) : Int) = point - digits.length := by omega
    rw [readUnsigned?_zerosBehind negative h hpos _ hrest, hplaces]
  · have hplaces : 0 - ((digits.length - point.toNat : Nat) : Int) = point - digits.length := by
      omega
    rw [readUnsigned?_pointWithin negative h (by omega) (by omega) hrest, hplaces]

/-- A decimal that is written with an exponent is read to its value. -/
theorem readUnsigned?_scientific (negative : Bool) (h : Significant digits) (exponent : Int)
    (hrest : Follows rest) :
    readUnsigned? negative (scientific digits exponent ++ rest) =
      some (num (.real (.ofDecimal negative (decimalValue digits)
        (exponent - (digits.length - 1)))), rest) := by
  have hplaces : ((digits.drop 1).length : Int) = digits.length - 1 := by
    have hsome := List.length_pos_iff.mpr h.ne_nil
    rw [List.length_drop]
    omega
  have hexponent := readExponent_padded exponent hrest.noDigit
  unfold scientific
  generalize padded 2 (natNumeral 10 exponent.natAbs) = places at *
  have hletter : ∀ c ∈ ('e' :: (if exponent < 0 then '-' else '+') :: (places ++ rest)).head?,
      c.isDigit = false ∧ c ≠ '.' := by
    intro c hc
    cases hc
    decide
  have hfraction := readFraction_optional
    (fun c hc => h.isDigit c (List.mem_of_mem_drop (i := 1) hc)) (fun c hc => (hletter c hc).1)
    (fun c hc => (hletter c hc).2)
  have hafter : NoDigit ((if digits.drop 1 = [] then [] else '.' :: digits.drop 1) ++
      'e' :: (if exponent < 0 then '-' else '+') :: (places ++ rest)) := by
    split
    · exact fun c hc => (hletter c hc).1
    · intro c hc
      cases hc
      rfl
  -- the exponent makes it a floating-point number, with a fraction or without
  have hreal : ¬(digits.drop 1 = [] ∧ some exponent = none) :=
    fun hnone => Option.some_ne_none _ hnone.2
  have hread := readUnsigned?_eq negative (.inr (h.take Nat.one_pos)) hafter hfraction hexponent
  rw [if_neg hreal, List.take_append_drop, Option.getD_some, hplaces] at hread
  simpa only [List.append_assoc, List.cons_append] using hread

end Decimals

/-- **Both ways of writing a decimal are read to its value.** -/
theorem readUnsigned?_decimalText (negative : Bool) {d : Decimal} (hd : 0 < d.digits)
    {rest : List Char} (hrest : Follows rest) :
    readUnsigned? negative (decimalText d ++ rest) =
      some (num (.real (.ofDecimal negative d.digits d.exponent)), rest) := by
  have hdigits := significant_natNumeral hd
  have hvalue := decimalValue_natNumeral d.digits
  have hpositional : ((natNumeral 10 d.digits).length : Int) + d.exponent -
      (natNumeral 10 d.digits).length = d.exponent := by omega
  have hscientific : ((natNumeral 10 d.digits).length : Int) + d.exponent - 1 -
      ((natNumeral 10 d.digits).length - 1) = d.exponent := by omega
  unfold decimalText
  dsimp only
  split
  · rw [readUnsigned?_positional negative hdigits (by rwa [hvalue]) _ hrest, hvalue, hpositional]
  · rw [readUnsigned?_scientific negative hdigits _ hrest, hvalue, hscientific]

/-- The text of a finite number without its sign. -/
def unsignedText (units : Nat) : List Char :=
  if units = 0 then ['0', '.', '0'] else decimalText (Double.shortest units)

/-- The text of a finite number without its sign is read to that number. -/
theorem readUnsigned?_unsignedText (negative : Bool) {units : Nat}
    (hformat : (Double.finite negative units).InFormat) {rest : List Char} (hrest : Follows rest) :
    readUnsigned? negative (unsignedText units ++ rest) =
      some (num (.real (.finite negative units)), rest) := by
  unfold unsignedText
  by_cases hzero : units = 0
  · have hdigit : ∀ c ∈ ['0'], c.isDigit = true := fun c hc => isDigit_of_mem_zeros (k := 1) hc
    rw [if_pos hzero, hzero]
    exact readUnsigned?_point negative (.inl rfl) (List.cons_ne_nil _ _) hdigit hrest
  · have hpos : 0 < units := Nat.pos_of_ne_zero hzero
    have hdigits := Double.digits_shortest_pos hpos hformat.1
    rw [if_neg hzero, readUnsigned?_decimalText negative hdigits hrest,
      Double.ofDecimal_shortest negative hpos hformat]

/-! ## Atoms -/

/-- What is read as a number starts with a digit. -/
theorem exists_digit_of_readUnsigned? {negative : Bool} {s : List Char} {result : Json × List Char}
    (h : readUnsigned? negative s = some result) : ∃ c t, s = c :: t ∧ c.isDigit = true := by
  cases s with
  | nil => cases h
  | cons c t =>
    refine ⟨c, t, rfl, ?_⟩
    by_cases hc : c.isDigit = true
    · exact hc
    · have hspan : spanDigits (c :: t) = ([], c :: t) := by
        unfold spanDigits
        rw [List.takeWhile_cons_of_neg hc, List.dropWhile_cons_of_neg hc]
      unfold readUnsigned? at h
      split at h
      next front back hparts =>
        split at hparts
        · next hzero =>
          cases hzero
          rfl
        · obtain ⟨rfl, rfl⟩ := Prod.mk.inj (hparts.symm.trans hspan)
          cases h

/-- No word that stands for a value starts like a number. -/
theorem readWord?_eq_none {c : Char} (hc : c.isDigit = true) (t : List Char) :
    readWord? (c :: t) = none ∧ readWord? ('-' :: c :: t) = none := by
  have hother (a : Char) (ha : a.isDigit = false) : a ≠ c := by
    rintro rfl
    exact Bool.false_ne_true (ha.symm.trans hc)
  have hminus := hother '-' (by decide)
  have hinfinity := hother 'I' (by decide)
  constructor
  · simp [readWord?, words, hother 'n' (by decide), hother 't' (by decide),
      hother 'f' (by decide), hother 'N' (by decide), hinfinity, hminus]
  · simp [readWord?, words, hinfinity]

/-- A number is read as an atom, with a minus sign in front where it is negative. -/
theorem readAtom?_of_readUnsigned? {s : List Char} {result : Json × List Char} :
    (readUnsigned? false s = some result → readAtom? s = some result) ∧
      (readUnsigned? true s = some result → readAtom? ('-' :: s) = some result) := by
  constructor
  · intro h
    obtain ⟨c, t, rfl, hc⟩ := exists_digit_of_readUnsigned? h
    unfold readAtom?
    rw [(readWord?_eq_none hc t).1, Option.none_or]
    split
    · next hminus =>
      cases hminus
      cases hc
    · exact h
  · intro h
    obtain ⟨c, t, rfl, hc⟩ := exists_digit_of_readUnsigned? h
    unfold readAtom?
    rw [(readWord?_eq_none hc t).2, Option.none_or]
    exact h

theorem numberText_int (n : Int) : numberText (.int n) = intNumeral 10 n :=
  String.toList_ofList

theorem numberText_finite (negative : Bool) (units : Nat) :
    numberText (.real (.finite negative units)) =
      if negative then '-' :: unsignedText units else unsignedText units :=
  String.toList_ofList

/-- **The text of a number is read to that number.** -/
theorem readAtom?_numberText {n : Number} (hformat : n.InFormat) {rest : List Char}
    (hrest : Follows rest) : readAtom? (numberText n ++ rest) = some (num n, rest) := by
  rcases n with (n | n) | ⟨negative, units⟩ | negative | _
  · have hread := readUnsigned?_int false (isWhole_natNumeral n) hrest
    rw [decimalValue_natNumeral] at hread
    rw [numberText_int]
    exact readAtom?_of_readUnsigned?.1 hread
  · have hread := readUnsigned?_int true (isWhole_natNumeral (n + 1)) hrest
    rw [decimalValue_natNumeral] at hread
    rw [numberText_int]
    exact readAtom?_of_readUnsigned?.2 hread
  · have hread := readUnsigned?_unsignedText negative hformat hrest
    rw [numberText_finite]
    cases negative with
    | false => exact readAtom?_of_readUnsigned?.1 hread
    | true => exact readAtom?_of_readUnsigned?.2 hread
  · cases negative <;> rfl
  · rfl

/-! ## Starts -/

/-- The characters that words and numbers start with. -/
def StartsAtom (c : Char) : Prop :=
  c.isDigit = true ∨ c ∈ ['n', 't', 'f', 'N', 'I', '-']

theorem StartsAtom.ne {c d : Char} (h : StartsAtom c) (hdigit : d.isDigit = false)
    (hother : d ∉ ['n', 't', 'f', 'N', 'I', '-']) : c ≠ d := by
  rintro rfl
  rcases h with h | h
  · exact Bool.false_ne_true (hdigit.symm.trans h)
  · exact hother h

theorem startsAtom_of_readUnsigned? {negative : Bool} {s : List Char} {result : Json × List Char}
    (h : readUnsigned? negative s = some result) : ∃ c t, s = c :: t ∧ StartsAtom c := by
  obtain ⟨c, t, hs, hc⟩ := exists_digit_of_readUnsigned? h
  exact ⟨c, t, hs, .inl hc⟩

/-- The text of a number starts with a digit, a minus sign or a capital letter. -/
theorem startsAtom_numberText {n : Number} (hformat : n.InFormat) :
    ∃ c t, numberText n = c :: t ∧ StartsAtom c := by
  have hminus : StartsAtom '-' := .inr (by decide)
  have hletter : StartsAtom 'I' ∧ StartsAtom 'N' := ⟨.inr (by decide), .inr (by decide)⟩
  rcases n with (n | n) | ⟨negative, units⟩ | negative | _
  · have hread := readUnsigned?_int false (isWhole_natNumeral n) follows_nil
    rw [List.append_nil] at hread
    rw [numberText_int]
    exact startsAtom_of_readUnsigned? hread
  · rw [numberText_int]
    exact ⟨'-', _, rfl, hminus⟩
  · rw [numberText_finite]
    cases negative with
    | false =>
      have hread := readUnsigned?_unsignedText false hformat follows_nil
      rw [List.append_nil] at hread
      exact startsAtom_of_readUnsigned? hread
    | true => exact ⟨'-', _, rfl, hminus⟩
  · cases negative with
    | false => exact ⟨'I', _, rfl, hletter.1⟩
    | true => exact ⟨'-', _, rfl, hminus⟩
  · exact ⟨'N', _, rfl, hletter.2⟩

end GrammarAudit.Json
