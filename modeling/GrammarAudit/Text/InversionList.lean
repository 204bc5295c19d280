/-!
# Inversion lists

A set of characters given by the code points at which membership changes.

- `InversionList`: the ascending list of those code points, starting outside the set.
- `InversionList.contains`: membership, by the parity of the changes passed.
-/

namespace GrammarAudit.Text

/-- A set of characters: `bounds` holds, in ascending order, the code points at which membership
changes, and a code point below all of them is outside. -/
structure InversionList where
  bounds : List Nat

/-- Whether a code point lies in the set, given whether the part before the list does. -/
def InversionList.mem (inside : Bool) (n : Nat) : List Nat → Bool
  | [] => inside
  | b :: rest => if n < b then inside else mem (!inside) n rest

/-- Whether the character belongs to the set. -/
def InversionList.contains (set : InversionList) (c : Char) : Bool :=
  InversionList.mem false c.toNat set.bounds

end GrammarAudit.Text
