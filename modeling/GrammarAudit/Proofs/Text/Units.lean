import GrammarAudit.Text.Units
import Mathlib.Data.List.Basic

/-!
# UTF-16

A text of code points is written in units of 16 bits: a code point of the basic plane as itself,
also where it is a lone surrogate, and one beyond it as a high and a low surrogate that hold ten
bits each.

- `Encodes`: the units of a list of code points.
- `Encodes.lt`, `Encodes.append`: units have 16 bits, and texts are encoded one after another.
- `Encodes.unique`: a list of code points has no two encodings.
- `encodes_units`: the code units of a text encode its characters.
-/

namespace GrammarAudit.Text

/-- The units of 16 bits in which code points are written. -/
inductive Encodes : List Nat → List Nat → Prop where
  | nil : Encodes [] []
  | basic {point : Nat} {points us : List Nat} (h : point < 0x10000) (rest : Encodes points us) :
    Encodes (point :: points) (point :: us)
  | pair {high low : Nat} {points us : List Nat} (hhigh : high < 0x400) (hlow : low < 0x400)
    (rest : Encodes points us) :
    Encodes ((0x10000 + 0x400 * high + low) :: points) ((0xd800 + high) :: (0xdc00 + low) :: us)

variable {points points' us us' : List Nat}

/-- Units have 16 bits. -/
theorem Encodes.lt (h : Encodes points us) : ∀ u ∈ us, u < 0x10000 := by
  induction h with
  | nil => exact List.forall_mem_nil _
  | basic h _ ih => exact List.forall_mem_cons.mpr ⟨h, ih⟩
  | pair hhigh hlow _ ih =>
    refine List.forall_mem_cons.mpr ⟨?_, List.forall_mem_cons.mpr ⟨?_, ih⟩⟩
    · omega
    · omega

/-- Texts one after another have their units one after another. -/
theorem Encodes.append (h : Encodes points us) (h' : Encodes points' us') :
    Encodes (points ++ points') (us ++ us') := by
  induction h with
  | nil => exact h'
  | basic h _ ih => exact .basic h ih
  | pair hhigh hlow _ ih => exact .pair hhigh hlow ih

/-- Code points have no two encodings. -/
theorem Encodes.unique (h : Encodes points us) (h' : Encodes points us') : us = us' := by
  induction h generalizing us' with
  | nil =>
    cases h'
    rfl
  | @basic point points us hpoint _ ih =>
    generalize hall : point :: points = all at h'
    cases h' with
    | nil => cases hall
    | basic _ rest =>
      obtain ⟨rfl, rfl⟩ := List.cons.inj hall
      rw [ih rest]
    | pair _ _ rest =>
      have heq := (List.cons.inj hall).1
      omega
  | @pair high low points us hhigh hlow _ ih =>
    generalize hall : (0x10000 + 0x400 * high + low) :: points = all at h'
    cases h' with
    | nil => cases hall
    | basic h =>
      have heq := (List.cons.inj hall).1
      omega
    | @pair high' low' _ _ hhigh' hlow' rest =>
      obtain ⟨hpoint, rfl⟩ := List.cons.inj hall
      obtain rfl : high = high' := by omega
      obtain rfl : low = low' := by omega
      rw [ih rest]

/-- The units of a character encode its code point. -/
theorem encodes_charUnits (c : Char) : Encodes [c.toNat] (charUnits c) := by
  unfold charUnits
  split
  · next h => exact .basic h .nil
  · next h =>
    have hvalid : c.toNat < 0xd800 ∨ 0xdfff < c.toNat ∧ c.toNat < 0x110000 := c.valid
    generalize c.toNat = point at *
    obtain ⟨k, rfl⟩ : ∃ k, point = 0x10000 + k := ⟨point - 0x10000, by omega⟩
    rw [Nat.add_sub_cancel_left]
    have hpair : Encodes [0x10000 + 0x400 * (k / 0x400) + k % 0x400]
        [0xd800 + k / 0x400, 0xdc00 + k % 0x400] := .pair (by omega) (by omega) .nil
    rwa [Nat.add_assoc, Nat.div_add_mod] at hpair

/-- **The code units of a text encode its characters.** -/
theorem encodes_units (s : List Char) : Encodes (s.map Char.toNat) (units s) := by
  induction s with
  | nil => exact .nil
  | cons c s ih => exact (encodes_charUnits c).append ih

end GrammarAudit.Text
