import GrammarAudit.Text.Numeral
import GrammarAudit.Text.Units

/-!
# Fingerprints

A short content hash of a text: the polynomial of its UTF-16 code units at 31, wrapped to a signed
word of 32 bits and written in hexadecimal.

- `hashWord`: the wrapped polynomial, unit by unit.
- `fingerprint`: the written hash of a text.
-/

namespace GrammarAudit

/-- The number of words of 32 bits. -/
def wordCount : Nat := 4294967296

/-- The first word that stands for a negative number. -/
def firstNegativeWord : Nat := 2147483648

/-- The hash word after one more code unit. -/
def hashStep (word unit : Nat) : Nat :=
  (word * 31 + unit) % wordCount

/-- The hash word of a list of code units. -/
def hashWord (units : List Nat) : Nat :=
  units.foldl hashStep 0

/-- A word of 32 bits read as a signed number. -/
def signedWord (word : Nat) : Int :=
  if firstNegativeWord ≤ word then (word : Int) - (wordCount : Int) else word

/-- The written hash of a list of code units. -/
def unitsFingerprint (units : List Nat) : String :=
  String.ofList (Text.intNumeral 16 (signedWord (hashWord units)))

/-- The written hash of a text. -/
def fingerprint (source : List Char) : String :=
  unitsFingerprint (Text.units source)

end GrammarAudit
