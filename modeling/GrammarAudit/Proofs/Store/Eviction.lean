import GrammarAudit.Proofs.Number.Difference
import GrammarAudit.Proofs.Store.History
import Mathlib.Algebra.Order.Group.Defs
import Mathlib.Data.List.Nodup
import Mathlib.Logic.Relation

/-!
# What a store evicts

While the clock does not go back, the entries of a store stand in the order in which they were
stored. The entries that make room for a new one are at the front, so they are the oldest: when one
of them could still have been answered, so can all that are left.

- `Reaches`, `SteadyClock`: the times that a clock goes through, and what is needed of them.
- `TimedStore.Forward`: steps along which the clock does not go back.
- `TimedStore.Orderly`, `TimedStore.Orderly.step`: what every step preserves of a store.
- `TimedStore.Orderly.live_of_evicts`: nothing expired is left when a live entry is evicted.
- `TimedStore.eviction_after`: both, after any steps.
-/

namespace GrammarAudit

universe u v w

/-! ## Clocks -/

section Clocks

variable {τ : Type v} [Add τ] [LE τ]

/-- A clock at the first time stays there or moves on to the second, and does not go back. -/
def Ticks (a b : τ) : Prop :=
  a ≤ b ∧ (b = a ∨ ∃ d, b = a + d)

/-- A clock at the first time comes to the second without going back. -/
def Reaches (a b : τ) : Prop :=
  Relation.TransGen Ticks a b

/-- What is transitive and holds along every tick holds along a run of the clock. -/
theorem Reaches.of_ticks {r : τ → τ → Prop} (trans : ∀ {a b c}, r a b → r b c → r a c)
    (tick : ∀ {a b}, Ticks a b → r a b) {a b : τ} (h : Reaches a b) : r a b := by
  induction h with
  | single h => exact tick h
  | tail _ h ih => exact trans ih (tick h)

end Clocks

/-- Times whose order and differences agree along a run of a clock: the more has passed the earlier
the clock was read. Differences may be rounded, and there may be times that are not even at most
themselves. -/
class SteadyClock (τ : Type v) [Add τ] [Sub τ] [LE τ] [LT τ] : Prop where
  le_trans {a b c : τ} : a ≤ b → b ≤ c → a ≤ c
  le_self {a b : τ} : a ≤ b → b ≤ b
  lt_sub {limit a b now : τ} : Reaches a b → Reaches b now → limit < now - b → limit < now - a

theorem Reaches.le {τ : Type v} [Add τ] [Sub τ] [LE τ] [LT τ] [SteadyClock τ] {a b : τ}
    (h : Reaches a b) : a ≤ b :=
  h.of_ticks (r := (· ≤ ·)) SteadyClock.le_trans And.left

/-- Exact times are steady. -/
instance {τ : Type v} [AddCommGroup τ] [LinearOrder τ] [IsOrderedAddMonoid τ] :
    SteadyClock τ where
  le_trans := le_trans
  le_self _ := le_rfl
  lt_sub hab _ h := h.trans_le (sub_le_sub_left (hab.of_ticks (r := (· ≤ ·)) le_trans And.left) _)

namespace Number

instance : LE Number := ⟨fun a b => a.le b = true⟩

instance : DecidableRel (α := Number) (· ≤ ·) := fun a b =>
  inferInstanceAs (Decidable (a.le b = true))

instance : Add Number := ⟨add⟩

/-- A clock that has counted in floating-point numbers goes on doing so. -/
theorem precedes_of_reaches {a b : Number} (h : Reaches a b) : a.Precedes b := by
  refine h.of_ticks (r := Precedes) Precedes.trans fun {a b} htick => ?_
  obtain ⟨hle, rfl | ⟨d, rfl⟩⟩ := htick
  · exact ⟨hle, fun n hn => ⟨n, hn⟩, id⟩
  · exact precedes_add hle

/-- Numbers of both kinds are steady, although differences are rounded. -/
instance : SteadyClock Number where
  le_trans := Number.le_trans
  le_self h := by
    obtain ⟨-, y, -, hy, -⟩ := le_iff.mp h
    exact le_iff.mpr ⟨y, y, hy, hy, levelLe_iff.mpr (.inr ⟨rfl, Int.le_refl _⟩)⟩
  lt_sub hab hnow h := lt_sub_of_precedes (precedes_of_reaches hab) (precedes_of_reaches hnow) h

end Number

variable {κ : Type u} {τ : Type v} {ρ : Type w}

/-! ## Orderly stores -/

namespace TimedStore

variable [Add τ] [LE τ]

/-- The entries fit into the store, each has a key of its own, and they stand in the order in which
the clock went through the times they were stored at, up to now. -/
structure Orderly (s : TimedStore κ τ ρ) : Prop where
  fits : s.store.entries.length ≤ s.store.capacity
  distinct : (s.store.entries.map Entry.key).Nodup
  ordered : (s.store.entries.map Entry.storedAt).Pairwise Reaches
  past : ∀ e ∈ s.store.entries, Reaches e.storedAt s.clock

/-- Dropping entries and moving the clock on leaves a store orderly. -/
theorem Orderly.of_sublist {s t : TimedStore κ τ ρ} (h : s.Orderly)
    (entries : t.store.entries.Sublist s.store.entries)
    (capacity : t.store.capacity = s.store.capacity) (clock : Ticks s.clock t.clock) :
    t.Orderly where
  fits := capacity ▸ Nat.le_trans entries.length_le h.fits
  distinct := h.distinct.sublist (entries.map Entry.key)
  ordered := h.ordered.sublist (entries.map Entry.storedAt)
  past e he := (h.past e (entries.subset he)).tail clock

theorem orderly_start (clock ttl : τ) {capacity : Nat} (positive : 0 < capacity) :
    (start clock ttl capacity positive : TimedStore κ τ ρ).Orderly :=
  ⟨Nat.zero_le _, List.nodup_nil, List.Pairwise.nil, fun _ he => nomatch he⟩

end TimedStore

/-! ## Entries in a queue -/

variable [DecidableEq κ]

namespace Store

/-- The entries of other keys with a new one behind them, before any makes room. -/
def queue (s : Store κ τ ρ) (now : τ) (key : κ) (value : ρ) : List (Entry κ τ ρ) :=
  (s.erase key).entries ++ [⟨key, now, value⟩]

theorem entries_put (s : Store κ τ ρ) (now : τ) (key : κ) (value : ρ) :
    (s.put now key value).entries =
      (s.queue now key value).drop ((s.queue now key value).length - s.capacity) := rfl

theorem entries_erase_sublist (s : Store κ τ ρ) (key : κ) :
    (s.erase key).entries.Sublist s.entries :=
  List.filter_sublist

/-- The keys of a queue are as distinct as those of the entries. -/
theorem nodup_queue {s : Store κ τ ρ} (h : (s.entries.map Entry.key).Nodup) (now : τ) (key : κ)
    (value : ρ) : ((s.queue now key value).map Entry.key).Nodup := by
  have hold : ((s.erase key).entries.map Entry.key).Nodup :=
    h.sublist ((s.entries_erase_sublist key).map Entry.key)
  rw [queue, List.map_append, List.map_singleton, List.nodup_append]
  refine ⟨hold, List.nodup_singleton _, fun k hk k' hk' heq => ?_⟩
  obtain ⟨e, he, rfl⟩ := List.mem_map.mp hk
  exact (mem_entries_erase.mp he).2 (heq.trans (List.mem_singleton.mp hk'))

/-- A new entry comes last in an order that the others are in, if they all come before now. -/
theorem pairwise_queue {s : Store κ τ ρ} {r : τ → τ → Prop} {now : τ}
    (h : (s.entries.map Entry.storedAt).Pairwise r) (past : ∀ e ∈ s.entries, r e.storedAt now)
    (key : κ) (value : ρ) : ((s.queue now key value).map Entry.storedAt).Pairwise r := by
  have hold : ((s.erase key).entries.map Entry.storedAt).Pairwise r :=
    h.sublist ((s.entries_erase_sublist key).map Entry.storedAt)
  rw [queue, List.map_append, List.map_singleton, List.pairwise_append]
  refine ⟨hold, List.pairwise_singleton _ _, fun t ht t' ht' => ?_⟩
  obtain ⟨e, he, rfl⟩ := List.mem_map.mp ht
  rw [List.mem_singleton.mp ht']
  exact past e (mem_entries_erase.mp he).1

variable [Sub τ] [LT τ] [DecidableLT τ]

theorem entries_get_sublist (s : Store κ τ ρ) (now : τ) (key : κ) :
    (s.get now key).2.entries.Sublist s.entries := by
  rcases s.get_snd_cases now key with hget | ⟨-, -, -, hget⟩
  · rw [hget]
  · rw [hget]
    exact s.entries_erase_sublist key

end Store

namespace TimedStore

/-- Putting a value leaves a store orderly. -/
theorem Orderly.put [Add τ] [LE τ] {s : TimedStore κ τ ρ} (h : s.Orderly)
    (now : s.clock ≤ s.clock) (key : κ) (value : ρ) :
    Orderly ⟨s.clock, s.store.put s.clock key value⟩ := by
  have hdrop := List.drop_sublist
    ((s.store.queue s.clock key value).length - s.store.capacity) (s.store.queue s.clock key value)
  refine ⟨?_, ?_, ?_, fun e he => ?_⟩
  · show (s.store.put s.clock key value).entries.length ≤ s.store.capacity
    rw [Store.entries_put, List.length_drop]
    omega
  · exact (Store.nodup_queue h.distinct s.clock key value).sublist (hdrop.map Entry.key)
  · exact (Store.pairwise_queue h.ordered h.past key value).sublist (hdrop.map Entry.storedAt)
  · rcases Store.mem_entries_put he with rfl | ⟨he, -⟩
    · exact .single ⟨now, .inl rfl⟩
    · exact h.past e he

variable [Add τ] [Sub τ] [LE τ] [LT τ] [DecidableLT τ]

/-! ## Runs on which the clock does not go back -/

/-- No step takes the clock back. -/
def Forward (s : TimedStore κ τ ρ) : List (StoreStep κ τ ρ) → Prop
  | [] => True
  | step :: steps => s.clock ≤ (s.step step).clock ∧ (s.step step).Forward steps

instance decidableForward [DecidableLE τ] :
    (s : TimedStore κ τ ρ) → (steps : List (StoreStep κ τ ρ)) → Decidable (s.Forward steps)
  | _, [] => isTrue trivial
  | s, step :: steps =>
    have := decidableForward (s.step step) steps
    inferInstanceAs (Decidable (s.clock ≤ (s.step step).clock ∧ (s.step step).Forward steps))

theorem forward_concat_iff {s : TimedStore κ τ ρ} {steps : List (StoreStep κ τ ρ)}
    {step : StoreStep κ τ ρ} :
    s.Forward (steps ++ [step]) ↔
      s.Forward steps ∧ (s.after steps).clock ≤ ((s.after steps).step step).clock := by
  induction steps generalizing s with
  | nil => simp [Forward, after]
  | cons first steps ih =>
    have hafter : s.after (first :: steps) = (s.step first).after steps := rfl
    rw [hafter, List.cons_append, Forward, Forward, ih, and_assoc]

/-- Only an advance moves the clock. -/
theorem ticks_step {s : TimedStore κ τ ρ} {step : StoreStep κ τ ρ}
    (h : s.clock ≤ (s.step step).clock) : Ticks s.clock (s.step step).clock := by
  cases step with
  | advance by' => exact ⟨h, .inr ⟨by', rfl⟩⟩
  | get => exact ⟨h, .inl rfl⟩
  | contains => exact ⟨h, .inl rfl⟩
  | put => exact ⟨h, .inl rfl⟩
  | clear => exact ⟨h, .inl rfl⟩

/-! ## What every step preserves -/

/-- Every step leaves a store orderly unless it takes the clock back. -/
theorem Orderly.step {s : TimedStore κ τ ρ} (h : s.Orderly) {step : StoreStep κ τ ρ}
    (forward : s.clock ≤ (s.step step).clock) : (s.step step).Orderly := by
  have hticks := ticks_step forward
  cases step with
  | get key =>
    exact h.of_sublist (s.store.entries_get_sublist s.clock key)
      (s.store.limits_get s.clock key).2 hticks
  | contains => exact h
  | put key value => exact h.put forward key value
  | clear => exact h.of_sublist (List.nil_sublist _) rfl hticks
  | advance => exact h.of_sublist (List.Sublist.refl _) rfl hticks

/-- A store stays orderly along all steps on which the clock does not go back. -/
theorem Orderly.after {s : TimedStore κ τ ρ} (h : s.Orderly) {steps : List (StoreStep κ τ ρ)}
    (forward : s.Forward steps) : (s.after steps).Orderly := by
  induction steps using List.reverseRecOn with
  | nil => exact h
  | append_singleton steps step ih =>
    obtain ⟨hsteps, hstep⟩ := forward_concat_iff.mp forward
    rw [after_concat]
    exact (ih hsteps).step hstep

/-! ## What makes room -/

/-- An entry may still be answered. -/
def Live (s : TimedStore κ τ ρ) (e : Entry κ τ ρ) : Prop :=
  ¬s.store.expired s.clock e

instance (s : TimedStore κ τ ρ) (e : Entry κ τ ρ) : Decidable (s.Live e) :=
  inferInstanceAs (Decidable ¬s.store.expired s.clock e)

/-- Putting a value under a key makes an entry of another key give way. -/
def Evicts (s : TimedStore κ τ ρ) (key : κ) (value : ρ) (e : Entry κ τ ρ) : Prop :=
  e ∈ s.store.entries ∧ e.key ≠ key ∧ e ∉ (s.step (.put key value)).store.entries

instance [DecidableEq τ] [DecidableEq ρ] (s : TimedStore κ τ ρ) (key : κ) (value : ρ)
    (e : Entry κ τ ρ) : Decidable (s.Evicts key value e) :=
  inferInstanceAs (Decidable (e ∈ s.store.entries ∧ e.key ≠ key ∧
    e ∉ (s.step (.put key value)).store.entries))

/-- An entry that gives way was stored before every one that is left. -/
theorem Orderly.reaches_of_evicts {s : TimedStore κ τ ρ} (h : s.Orderly) {key : κ} {value : ρ}
    {e : Entry κ τ ρ} (evicted : s.Evicts key value e) :
    ∀ f ∈ (s.step (.put key value)).store.entries, Reaches e.storedAt f.storedAt := by
  intro f hf
  obtain ⟨hmem, hkey, hgone⟩ := evicted
  have hordered := Store.pairwise_queue h.ordered h.past key value
  have hqueue : e ∈ s.store.queue s.clock key value :=
    List.mem_append_left _ (Store.mem_entries_erase.mpr ⟨hmem, hkey⟩)
  -- what is left is the end of the queue, and the entry is not in it
  rw [← List.take_append_drop ((s.store.queue s.clock key value).length - s.store.capacity)
    (s.store.queue s.clock key value)] at hqueue hordered
  rw [List.map_append, List.pairwise_append] at hordered
  rcases List.mem_append.mp hqueue with hfront | hback
  · exact hordered.2.2 _ (List.mem_map_of_mem hfront) _ (List.mem_map_of_mem hf)
  · exact absurd hback hgone

variable [SteadyClock τ]

/-- When a live entry gives way, all that are left are live. -/
theorem Orderly.live_of_evicts {s : TimedStore κ τ ρ} (h : s.Orderly) {key : κ} {value : ρ}
    {e : Entry κ τ ρ} (evicted : s.Evicts key value e) (live : s.Live e) :
    ∀ f ∈ (s.step (.put key value)).store.entries, (s.step (.put key value)).Live f := by
  intro f hf hexpired
  have hnow : s.clock ≤ s.clock := SteadyClock.le_self (h.past e evicted.1).le
  have hpast : Reaches f.storedAt s.clock := (h.put hnow key value).past f hf
  exact live (SteadyClock.lt_sub (h.reaches_of_evicts evicted f hf) hpast hexpired)

/-- **A store never gives up a live entry for an expired one**: after all steps on which the clock
does not go back, the entries fit, have distinct keys and stand in the order of their times; and
when putting a value evicts a live entry, every entry that is left is live. -/
theorem eviction_after {clock ttl : τ} {capacity : Nat} (positive : 0 < capacity)
    {steps : List (StoreStep κ τ ρ)}
    (forward : (start clock ttl capacity positive : TimedStore κ τ ρ).Forward steps) :
    let s := (start clock ttl capacity positive).after steps
    s.store.entries.length ≤ capacity ∧ (s.store.entries.map Entry.key).Nodup ∧
      (s.store.entries.map Entry.storedAt).Pairwise (· ≤ ·) ∧
      ∀ key value e, s.Evicts key value e → s.Live e →
        ∀ f ∈ (s.step (.put key value)).store.entries, (s.step (.put key value)).Live f := by
  intro s
  have horderly : s.Orderly := (orderly_start clock ttl positive).after forward
  have hcapacity : s.store.capacity = capacity := (limits_after _ steps).2
  exact ⟨hcapacity ▸ horderly.fits, horderly.distinct, horderly.ordered.imp Reaches.le,
    fun _ _ _ => horderly.live_of_evicts⟩

/-- In a store with room for two, whose clock counts in floating-point numbers, the third value
makes the first give way while that may still be answered, and the second is live as well. -/
theorem eviction_after_two_puts :
    let s : TimedStore String Number Nat := start (.real (.ofInt 1000)) (.int 300) 2 (by decide)
    let steps := [.put "a" 1, .advance (.int 200), .put "b" 2, .advance (.real (.ofInt 50))]
    s.Forward steps ∧ (s.after steps).Evicts "c" 3 ⟨"a", .real (.ofInt 1000), 1⟩ ∧
      (s.after steps).Live ⟨"a", .real (.ofInt 1000), 1⟩ ∧
      ∀ f ∈ ((s.after steps).step (.put "c" 3)).store.entries,
        ((s.after steps).step (.put "c" 3)).Live f := by
  intro s steps
  have hforward : s.Forward steps := by decide +kernel
  have hevicts : (s.after steps).Evicts "c" 3 ⟨"a", .real (.ofInt 1000), 1⟩ := by decide +kernel
  have hlive : (s.after steps).Live ⟨"a", .real (.ofInt 1000), 1⟩ := by decide +kernel
  exact ⟨hforward, hevicts, hlive,
    (eviction_after (by decide) hforward).2.2.2 "c" 3 _ hevicts hlive⟩

end TimedStore

end GrammarAudit
