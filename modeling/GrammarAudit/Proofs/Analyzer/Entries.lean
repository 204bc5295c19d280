import GrammarAudit.Store

/-!
# Entries of a store

What the operations of a store do to its entries, for callers that never look inside.

- `Store.get_cases`: a look-up finds a live entry, finds none, or drops an expired one.
- `Store.get_snd_cases`: a look-up changes nothing or drops an entry that has expired.
- `Store.limits_get`: a look-up leaves the limits of a store as they are.
- `Store.mem_entries_get`, `Store.mem_entries_put`: no operation makes up an entry.
-/

namespace GrammarAudit

universe u v w

namespace Store

variable {κ : Type u} {τ : Type v} {ρ : Type w} [DecidableEq κ]

theorem mem_entries_erase {s : Store κ τ ρ} {key : κ} {e : Entry κ τ ρ} :
    e ∈ (s.erase key).entries ↔ e ∈ s.entries ∧ e.key ≠ key := by
  show e ∈ s.entries.filter (fun e => decide (e.key ≠ key)) ↔ _
  rw [List.mem_filter, decide_eq_true_iff]

/-- After a value is put under a key, the entries are the new one and old ones of other keys. -/
theorem mem_entries_put {s : Store κ τ ρ} {now : τ} {key : κ} {value : ρ} {e : Entry κ τ ρ}
    (h : e ∈ (s.put now key value).entries) :
    e = ⟨key, now, value⟩ ∨ (e ∈ s.entries ∧ e.key ≠ key) := by
  have hmem : e ∈ (s.erase key).entries ++ [⟨key, now, value⟩] := List.mem_of_mem_drop h
  rcases List.mem_append.mp hmem with hmem | hmem
  · exact .inr (mem_entries_erase.mp hmem)
  · exact .inl (List.mem_singleton.mp hmem)

variable [Sub τ] [LT τ] [DecidableLT τ]

/-- A look-up finds a live entry, finds no entry, or drops an expired one. -/
theorem get_cases (s : Store κ τ ρ) (now : τ) (key : κ) :
    (∃ e ∈ s.entries, e.key = key ∧ ¬ s.expired now e ∧ s.get now key = (some e.value, s)) ∨
      s.get now key = (none, s) ∨ s.get now key = (none, s.erase key) := by
  unfold get
  split
  · exact .inr (.inl rfl)
  · next e found =>
    have hmem : e ∈ s.entries := List.mem_of_find?_eq_some found
    have hkey : e.key = key := by simpa using List.find?_some found
    split
    · exact .inr (.inr rfl)
    · next live => exact .inl ⟨e, hmem, hkey, live, rfl⟩

/-- A look-up changes nothing or drops the entry of the key, which has expired. -/
theorem get_snd_cases (s : Store κ τ ρ) (now : τ) (key : κ) :
    (s.get now key).2 = s ∨
      ∃ e, s.find? key = some e ∧ s.expired now e ∧ (s.get now key).2 = s.erase key := by
  unfold get
  split
  · exact .inl rfl
  · next e found =>
    split
    · next old => exact .inr ⟨e, found, old, rfl⟩
    · exact .inl rfl

/-- A look-up does not change how long entries live and how many there can be. -/
theorem limits_get (s : Store κ τ ρ) (now : τ) (key : κ) :
    (s.get now key).2.ttl = s.ttl ∧ (s.get now key).2.capacity = s.capacity := by
  rcases s.get_snd_cases now key with hget | ⟨_, -, -, hget⟩
  all_goals
    rw [hget]
    exact ⟨rfl, rfl⟩

/-- A look-up makes up no entry. -/
theorem mem_entries_get {s : Store κ τ ρ} {now : τ} {key : κ} {e : Entry κ τ ρ}
    (h : e ∈ (s.get now key).2.entries) : e ∈ s.entries := by
  rcases s.get_cases now key with ⟨_, -, -, -, hget⟩ | hget | hget
  · rw [hget] at h
    exact h
  · rw [hget] at h
    exact h
  · rw [hget] at h
    exact (mem_entries_erase.mp h).1

end Store

end GrammarAudit
