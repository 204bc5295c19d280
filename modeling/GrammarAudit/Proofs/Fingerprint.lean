import GrammarAudit.Fingerprint
import GrammarAudit.Proofs.Text.Numeral
import GrammarAudit.Proofs.Text.Units
import Mathlib.Algebra.BigOperators.Fin
import Mathlib.Data.Int.ModEq
import Mathlib.Tactic.Ring

/-!
# The hash of a text

A fingerprint is computed unit by unit, and every step is wrapped to 32 bits. It is the same as the
polynomial of the code units at 31, taken once modulo `2 ^ 32`, and what is written is the one
number in the signed range with that residue. So two fingerprints are equal exactly if the
polynomials are congruent. As 31 is odd, a single unit that is replaced always shows.

- `polynomial`, `polynomial_append`: the polynomial of some units, and of units one after another.
- `hashWord_eq`: the hash word is the polynomial wrapped once.
- `IsHash`, `IsHash.unique`, `isHash_signedWord`: the signed number that is written.
- `unitsFingerprint_eq_iff`: when two fingerprints are equal.
- `fingerprint_polynomial`: what is written for a text, and for texts one after another.
- `OneUnitApart`, `fingerprint_ne_of_oneUnitApart`: a single unit that is replaced.
-/

namespace GrammarAudit

open Text

/-! ## The polynomial of code units -/

/-- The polynomial of code units at 31: the first unit has the highest power, the last one none. -/
def polynomial (us : List Nat) : Nat :=
  ∑ i : Fin us.length, us[i] * 31 ^ (us.length - 1 - i)

theorem polynomial_cons (u : Nat) (us : List Nat) :
    polynomial (u :: us) = u * 31 ^ us.length + polynomial us := by
  show ∑ i : Fin (us.length + 1), (u :: us)[i] * 31 ^ (us.length + 1 - 1 - i) = _
  rw [Fin.sum_univ_succ]
  congr 1
  refine Finset.sum_congr rfl fun i _ => ?_
  have hpower : us.length + 1 - 1 - (i.succ : Nat) = us.length - 1 - i := by
    rw [Fin.val_succ]
    omega
  rw [hpower]
  rfl

/-- Units behind others move these up by their number. -/
theorem polynomial_append (a b : List Nat) :
    polynomial (a ++ b) = polynomial a * 31 ^ b.length + polynomial b := by
  induction a with
  | nil => simp [polynomial]
  | cons u a ih =>
    rw [List.cons_append, polynomial_cons, polynomial_cons, ih, List.length_append]
    ring

/-- From any word on, the steps add up to the polynomial, wrapped or not. -/
theorem foldl_hashStep_modEq (us : List Nat) (word : Nat) :
    us.foldl hashStep word ≡ word * 31 ^ us.length + polynomial us [MOD 2 ^ 32] := by
  induction us generalizing word with
  | nil => simpa [polynomial] using Nat.ModEq.refl word
  | cons u us ih =>
    have hstep : hashStep word u ≡ word * 31 + u [MOD 2 ^ 32] := Nat.mod_modEq _ _
    calc us.foldl hashStep (hashStep word u)
        ≡ hashStep word u * 31 ^ us.length + polynomial us [MOD 2 ^ 32] := ih _
      _ ≡ (word * 31 + u) * 31 ^ us.length + polynomial us [MOD 2 ^ 32] :=
        (hstep.mul_right _).add_right _
      _ = word * 31 ^ (u :: us).length + polynomial (u :: us) := by
        rw [polynomial_cons, List.length_cons]
        ring

theorem hashWord_lt (us : List Nat) : hashWord us < 2 ^ 32 := by
  rcases us.eq_nil_or_concat with rfl | ⟨front, last, rfl⟩
  · exact Nat.two_pow_pos 32
  · rw [hashWord, List.concat_eq_append, List.foldl_append]
    exact Nat.mod_lt _ (Nat.two_pow_pos 32)

/-- **The hash word is the polynomial wrapped once.** -/
theorem hashWord_eq (us : List Nat) : hashWord us = polynomial us % 2 ^ 32 := by
  have hmod := foldl_hashStep_modEq us 0
  rw [Nat.zero_mul, Nat.zero_add] at hmod
  exact (Nat.mod_eq_of_lt (hashWord_lt us)).symm.trans hmod

/-! ## The signed number -/

/-- A number is the hash of some units: the one in the signed range of 32 bits that is congruent to
their polynomial. -/
structure IsHash (us : List Nat) (h : Int) : Prop where
  lower : -2 ^ 31 ≤ h
  upper : h < 2 ^ 31
  modEq : h ≡ polynomial us [ZMOD 2 ^ 32]

/-- Numbers in the signed range are equal if they are congruent. -/
theorem IsHash.eq_of_modEq {a b : List Nat} {x y : Int} (hx : IsHash a x) (hy : IsHash b y)
    (h : x ≡ y [ZMOD 2 ^ 32]) : x = y := by
  obtain ⟨hlower, hupper, -⟩ := hx
  obtain ⟨hlower', hupper', -⟩ := hy
  have hdvd : (2 ^ 32 : Int) ∣ y - x := h.dvd
  omega

/-- Units have one hash. -/
theorem IsHash.unique {us : List Nat} {x y : Int} (hx : IsHash us x) (hy : IsHash us y) : x = y :=
  hx.eq_of_modEq hy (hx.modEq.trans hy.modEq.symm)

/-- The hash word read as a signed number is the hash. -/
theorem isHash_signedWord (us : List Nat) : IsHash us (signedWord (hashWord us)) := by
  have hlt : hashWord us < 4294967296 := hashWord_lt us
  have hmod : (hashWord us : Int) ≡ polynomial us [ZMOD 2 ^ 32] := by
    rw [hashWord_eq, Int.natCast_mod]
    exact Int.mod_modEq _ _
  unfold signedWord firstNegativeWord wordCount
  split
  · have hwrapped : (hashWord us : Int) - (4294967296 : Nat) ≡ hashWord us [ZMOD 2 ^ 32] :=
      Int.modEq_iff_dvd.mpr ⟨1, by omega⟩
    exact ⟨by omega, by omega, hwrapped.trans hmod⟩
  · exact ⟨by omega, by omega, hmod⟩

/-- Fingerprints are equal exactly if the hashes are. -/
theorem unitsFingerprint_eq_iff_hash {a b : List Nat} {x y : Int} (hx : IsHash a x)
    (hy : IsHash b y) : unitsFingerprint a = unitsFingerprint b ↔ x = y := by
  rw [(isHash_signedWord a).unique hx |>.symm, (isHash_signedWord b).unique hy |>.symm,
    ← intNumeral_hex_inj]
  exact ⟨fun h => String.ofList_injective h, fun h => congrArg String.ofList h⟩

/-- **Fingerprints are equal exactly if the polynomials are congruent.** -/
theorem unitsFingerprint_eq_iff {a b : List Nat} :
    unitsFingerprint a = unitsFingerprint b ↔ polynomial a ≡ polynomial b [MOD 2 ^ 32] := by
  have ha := isHash_signedWord a
  have hb := isHash_signedWord b
  rw [unitsFingerprint_eq_iff_hash ha hb, ← Int.natCast_modEq_iff]
  constructor
  · intro h
    exact ha.modEq.symm.trans (h ▸ hb.modEq)
  · intro h
    exact ha.eq_of_modEq hb ((ha.modEq.trans h).trans hb.modEq.symm)

/-- The hash of units one after another is made of the two hashes and the number of later units. -/
theorem IsHash.append {a b : List Nat} {x y z : Int} (hx : IsHash a x) (hy : IsHash b y)
    (hz : IsHash (a ++ b) z) : z ≡ x * 31 ^ b.length + y [ZMOD 2 ^ 32] := by
  have hpolynomial : (polynomial (a ++ b) : Int) =
      polynomial a * 31 ^ b.length + polynomial b := by
    rw [polynomial_append]
    push_cast
    rfl
  have hmod := hz.modEq
  rw [hpolynomial] at hmod
  exact hmod.trans ((hx.modEq.mul_right _).add hy.modEq).symm

/-- **The fingerprint is the wrapped polynomial of the code units.** The units of a text are the
UTF-16 encoding of its characters. For the units of any text, lone surrogates included, the
fingerprint is the hexadecimal text of the one number in the signed range of 32 bits that is
congruent to their polynomial. That number of a text with another one behind it is determined by the
numbers of the two and by how many units the second one has, and fingerprints are equal exactly if
these numbers are. -/
theorem fingerprint_polynomial :
    (∀ s, fingerprint s = unitsFingerprint (units s) ∧
      ∀ us, Encodes (s.map Char.toNat) us ↔ us = units s) ∧
    (∀ us, ∃ h, IsHash us h ∧ (∀ h', IsHash us h' → h' = h) ∧
      IsHexText (unitsFingerprint us).toList h) ∧
    (∀ points points' a b x y z, Encodes points a → Encodes points' b →
      IsHash a x → IsHash b y → IsHash (a ++ b) z →
      Encodes (points ++ points') (a ++ b) ∧ z ≡ x * 31 ^ b.length + y [ZMOD 2 ^ 32]) ∧
    (∀ a b a' b', unitsFingerprint a = unitsFingerprint a' →
      unitsFingerprint b = unitsFingerprint b' → b.length = b'.length →
      unitsFingerprint (a ++ b) = unitsFingerprint (a' ++ b')) ∧
    ∀ a b x y, IsHash a x → IsHash b y → (unitsFingerprint a = unitsFingerprint b ↔ x = y) := by
  refine ⟨fun s => ⟨rfl, fun us => ⟨?encoding, ?encoded⟩⟩, fun us => ?written,
    fun points points' a b x y z hpoints hpoints' hx hy hz => ?joined,
    fun a b a' b' ha hb hlength => ?determined, fun a b x y => unitsFingerprint_eq_iff_hash⟩
  case encoding =>
    intro hus
    exact hus.unique (encodes_units s)
  case encoded =>
    rintro rfl
    exact encodes_units s
  case written =>
    refine ⟨_, isHash_signedWord us, fun h' hh' => hh'.unique (isHash_signedWord us), ?_⟩
    rw [unitsFingerprint, String.toList_ofList]
    exact isHexText_iff.mpr rfl
  case joined => exact ⟨hpoints.append hpoints', hx.append hy hz⟩
  case determined =>
    rw [unitsFingerprint_eq_iff] at ha hb ⊢
    rw [polynomial_append, polynomial_append, hlength]
    exact (ha.mul_right _).add hb

/-- A high surrogate and a low one, each a text of its own, have the hash of the pair together. -/
theorem fingerprint_polynomial_surrogates :
    let high := [0xd83d]
    let low := [0xde00]
    (Encodes high high ∧ Encodes low low) ∧
      (IsHash high 0xd83d ∧ IsHash low 0xde00 ∧ IsHash (high ++ low) 0x1b0d63) ∧
      (0x1b0d63 : Int) ≡ 0xd83d * 31 ^ 1 + 0xde00 [ZMOD 2 ^ 32] := by
  intro high low
  have hencodes : Encodes high high ∧ Encodes low low :=
    ⟨.basic (by decide) .nil, .basic (by decide) .nil⟩
  have hhigh : IsHash high 0xd83d := ⟨by decide, by decide, by decide⟩
  have hlow : IsHash low 0xde00 := ⟨by decide, by decide, by decide⟩
  have hboth : IsHash (high ++ low) 0x1b0d63 := ⟨by decide, by decide, by decide⟩
  have hjoined := fingerprint_polynomial.2.2.1 high low high low 0xd83d 0xde00 0x1b0d63
    hencodes.1 hencodes.2 hhigh hlow hboth
  exact ⟨hencodes, ⟨hhigh, hlow, hboth⟩, hjoined.2⟩

/-- The fingerprint of a text with the least number of the range. -/
example : fingerprint "polygenelubricants".toList = "-80000000" := by decide +kernel

/-! ## A single unit that is replaced -/

/-- Two lists of code units are equally long and differ in exactly one place. -/
def OneUnitApart (a b : List Nat) : Prop :=
  a.length = b.length ∧ ∃! i : Nat, a[i]? ≠ b[i]?

/-- What differs in one place has common parts before and behind it. -/
theorem oneUnitApart_iff {a b : List Nat} : OneUnitApart a b ↔
    ∃ front u v back, u ≠ v ∧ a = front ++ u :: back ∧ b = front ++ v :: back := by
  constructor
  · rintro ⟨hlength, i, hi, honly⟩
    have hsame {j : Nat} (hj : j ≠ i) : a[j]? = b[j]? :=
      Decidable.not_not.mp fun h => hj (honly j h)
    have hlt : i < a.length := by
      refine Decidable.not_not.mp fun h => hi ?_
      rw [List.getElem?_eq_none (by omega), List.getElem?_eq_none (by omega)]
    have hlt' : i < b.length := hlength ▸ hlt
    have hfront : a.take i = b.take i := by
      refine List.ext_getElem? fun j => ?_
      rw [List.getElem?_take, List.getElem?_take]
      split
      · next h => exact hsame (Nat.ne_of_lt h)
      · rfl
    have hback : a.drop (i + 1) = b.drop (i + 1) := by
      refine List.ext_getElem? fun j => ?_
      rw [List.getElem?_drop, List.getElem?_drop]
      exact hsame (by omega)
    refine ⟨a.take i, a[i], b[i], a.drop (i + 1), fun h => hi ?_, ?_, ?_⟩
    · rw [List.getElem?_eq_getElem hlt, List.getElem?_eq_getElem hlt', h]
    · rw [← List.drop_eq_getElem_cons, List.take_append_drop]
    · rw [hfront, hback, ← List.drop_eq_getElem_cons, List.take_append_drop]
  · rintro ⟨front, u, v, back, hne, rfl, rfl⟩
    refine ⟨by simp, front.length, by simpa using hne, fun j hj => ?_⟩
    refine Decidable.not_not.mp fun h => hj ?_
    rcases Nat.lt_or_gt_of_ne h with hlt | hgt
    · rw [List.getElem?_append_left hlt, List.getElem?_append_left hlt]
    · obtain ⟨k, rfl⟩ : ∃ k, j = front.length + (k + 1) := ⟨j - front.length - 1, by omega⟩
      rw [List.getElem?_append_right (Nat.le_add_right _ _),
        List.getElem?_append_right (Nat.le_add_right _ _), Nat.add_sub_cancel_left]
      rfl

/-- Units of 16 bits that differ in one place have polynomials that are not congruent: 31 is odd, so
that no power of it takes a factor of `2 ^ 32` out of the difference. -/
theorem not_modEq_of_oneUnitApart {a b : List Nat} (ha : ∀ u ∈ a, u < 0x10000)
    (hb : ∀ u ∈ b, u < 0x10000) (h : OneUnitApart a b) :
    ¬polynomial a ≡ polynomial b [MOD 2 ^ 32] := by
  obtain ⟨front, u, v, back, hne, rfl, rfl⟩ := oneUnitApart_iff.mp h
  intro hmod
  rw [polynomial_append, polynomial_append, polynomial_cons, polynomial_cons, List.length_cons,
    List.length_cons] at hmod
  have hproduct : u * 31 ^ back.length ≡ v * 31 ^ back.length [MOD 2 ^ 32] :=
    (hmod.add_left_cancel' _).add_right_cancel' _
  have hcoprime : Nat.Coprime (2 ^ 32) (31 ^ back.length) := Nat.Coprime.pow _ _ (by decide)
  have hunit : u ≡ v [MOD 2 ^ 32] := Nat.ModEq.cancel_right_of_coprime hcoprime hproduct
  have hu : u < 0x10000 := ha u (by simp)
  have hv : v < 0x10000 := hb v (by simp)
  exact hne (hunit.eq_of_lt_of_lt (by omega) (by omega))

/-- **An edit of one code unit is always noticed**, in texts of any length: two lists of code
points, lone surrogates included, whose UTF-16 encodings are equally long and differ in exactly one
unit have different fingerprints. So have two such texts. -/
theorem fingerprint_ne_of_oneUnitApart :
    (∀ points points' a b, Encodes points a → Encodes points' b → OneUnitApart a b →
      unitsFingerprint a ≠ unitsFingerprint b) ∧
    ∀ s t, OneUnitApart (units s) (units t) → fingerprint s ≠ fingerprint t := by
  have hunits {points points' a b : List Nat} (ha : Encodes points a) (hb : Encodes points' b)
      (h : OneUnitApart a b) : unitsFingerprint a ≠ unitsFingerprint b := by
    intro heq
    exact not_modEq_of_oneUnitApart ha.lt hb.lt h (unitsFingerprint_eq_iff.mp heq)
  refine ⟨fun points points' a b => hunits, fun s t h => ?_⟩
  exact hunits (encodes_units s) (encodes_units t) h

/-- Two characters beyond the basic plane that differ in the low surrogate. -/
theorem fingerprint_ne_of_low_surrogate :
    let s := "a : '😀' ;".toList
    let t := "a : '😁' ;".toList
    OneUnitApart (units s) (units t) ∧ fingerprint s ≠ fingerprint t := by
  intro s t
  have happart : OneUnitApart (units s) (units t) :=
    oneUnitApart_iff.mpr ⟨units "a : '".toList ++ [0xd83d], 0xde00, 0xde01, units "' ;".toList,
      by decide, by decide, by decide⟩
  exact ⟨happart, fingerprint_ne_of_oneUnitApart.2 s t happart⟩

end GrammarAudit
