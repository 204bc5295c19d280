/-!
# Bounded stores

A store keeps results under keys for a limited time. It holds a bounded number of entries, in the
order in which they were stored; when it is full, the entry stored first makes room. Looking an
entry up does not change its place, and an entry that has expired is dropped when it is looked up.

- `Store`: the entries, the time they live and how many there can be.
- `Store.get`, `Store.put`, `Store.clear`, `Store.contains`: the operations.
-/

namespace GrammarAudit

universe u v w

/-- A stored value with its key and the time it was stored at. -/
structure Entry (κ : Type u) (τ : Type v) (ρ : Type w) where
  key : κ
  storedAt : τ
  value : ρ
deriving DecidableEq, Repr

/-- A store: how long entries live, how many there can be, and the entries, the oldest first. -/
structure Store (κ : Type u) (τ : Type v) (ρ : Type w) where
  ttl : τ
  capacity : Nat
  entries : List (Entry κ τ ρ) := []
  capacity_pos : 0 < capacity := by decide

namespace Store

variable {κ : Type u} {τ : Type v} {ρ : Type w} [DecidableEq κ] [Sub τ] [LT τ] [DecidableLT τ]

/-- The number of entries. -/
def size (s : Store κ τ ρ) : Nat :=
  s.entries.length

/-- The entry of a key. -/
def find? (s : Store κ τ ρ) (key : κ) : Option (Entry κ τ ρ) :=
  s.entries.find? fun e => e.key = key

/-- The store without the entry of a key. -/
def erase (s : Store κ τ ρ) (key : κ) : Store κ τ ρ :=
  { s with entries := s.entries.filter fun e => e.key ≠ key }

/-- Whether an entry is older than it may be. -/
def expired (s : Store κ τ ρ) (now : τ) (e : Entry κ τ ρ) : Prop :=
  s.ttl < now - e.storedAt

instance (s : Store κ τ ρ) (now : τ) (e : Entry κ τ ρ) : Decidable (s.expired now e) :=
  inferInstanceAs (Decidable (s.ttl < now - e.storedAt))

/-- The live value of a key, and the store after the look-up. -/
def get (s : Store κ τ ρ) (now : τ) (key : κ) : Option ρ × Store κ τ ρ :=
  match s.find? key with
  | none => (none, s)
  | some e => if s.expired now e then (none, s.erase key) else (some e.value, s)

/-- The store with a value under a key, as its newest entry. The oldest entries make room. -/
def put (s : Store κ τ ρ) (now : τ) (key : κ) (value : ρ) : Store κ τ ρ :=
  let entries := (s.erase key).entries ++ [⟨key, now, value⟩]
  { s with entries := entries.drop (entries.length - s.capacity) }

/-- The store without entries. -/
def clear (s : Store κ τ ρ) : Store κ τ ρ :=
  { s with entries := [] }

/-- Whether a key has an entry, however old. -/
def contains (s : Store κ τ ρ) (key : κ) : Bool :=
  (s.find? key).isSome

end Store

end GrammarAudit
