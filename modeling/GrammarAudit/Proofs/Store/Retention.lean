import GrammarAudit.Proofs.Store.History
import Mathlib.Algebra.Order.Group.Defs
import Mathlib.Algebra.Order.Group.Int
import Mathlib.Data.Finset.Card

/-!
# How long a store keeps a value

A value that was put under a key can be looked up for as long as it may live, unless the store is
cleared, the key is put again, or so many other keys are put after it that it has to make room. The
entries that stand behind an entry are the ones that were put after it, each under a key of its
own, so an entry is not evicted before as many other keys have been put as the store has room for.

- `Store.KeptUnder`, `Store.find?_of_keptUnder`: an entry and the keys of the entries behind it.
- `Store.KeptUnder.put`: putting another key leaves it in place while there is room behind it.
- `TimedStore.Retains`, `TimedStore.Retains.step`: an entry is kept, or it is gone and had expired.
- `TimedStore.lookup_after_put`: what a look-up answers after a value has been put.
- `TimedStore.lookup_after`: what it answers after any history.
-/

namespace GrammarAudit

universe u v w

variable {κ : Type u} {τ : Type v} {ρ : Type w} [DecidableEq κ]

namespace Store

/-- The entry stands in the store, the only one of its key; the entries behind it have distinct
keys, all among the given ones. -/
def KeptUnder (s : Store κ τ ρ) (e : Entry κ τ ρ) (keys : List κ) : Prop :=
  ∃ front back, s.entries = front ++ e :: back ∧ (∀ f ∈ front, f.key ≠ e.key) ∧
    (back.map Entry.key).Nodup ∧ ∀ b ∈ back, b.key ∈ keys

theorem find?_of_keptUnder {s : Store κ τ ρ} {e : Entry κ τ ρ} {keys : List κ}
    (h : s.KeptUnder e keys) : s.find? e.key = some e := by
  obtain ⟨front, back, hentries, hfront, -⟩ := h
  have hnone : front.find? (fun f => decide (f.key = e.key)) = none :=
    List.find?_eq_none.mpr fun f hf => by simpa using hfront f hf
  rw [find?, hentries, List.find?_append, hnone, List.find?_cons_of_pos (by simp)]
  rfl

/-- Erasing another key leaves the entry in place. -/
theorem KeptUnder.erase {s : Store κ τ ρ} {e : Entry κ τ ρ} {keys : List κ} {key : κ}
    (h : s.KeptUnder e keys) (hkey : key ≠ e.key) : (s.erase key).KeptUnder e keys := by
  obtain ⟨front, back, hentries, hfront, hnodup, hkeys⟩ := h
  refine ⟨front.filter fun f => f.key ≠ key, back.filter fun f => f.key ≠ key, ?_,
    fun f hf => hfront f (List.mem_of_mem_filter hf),
    hnodup.sublist (List.filter_sublist.map Entry.key),
    fun b hb => hkeys b (List.mem_of_mem_filter hb)⟩
  show s.entries.filter _ = _
  rw [hentries, List.filter_append, List.filter_cons_of_pos (by simpa using Ne.symm hkey)]

/-- Entries with distinct keys are no more than the keys that they can have. -/
theorem length_le_card {entries : List (Entry κ τ ρ)} {keys : List κ}
    (hnodup : (entries.map Entry.key).Nodup) (hkeys : ∀ e ∈ entries, e.key ∈ keys) :
    entries.length ≤ keys.toFinset.card := by
  rw [← List.length_map Entry.key, ← List.toFinset_card_of_nodup hnodup]
  refine Finset.card_le_card fun key hkey => ?_
  obtain ⟨e, he, rfl⟩ := List.mem_map.mp (List.mem_toFinset.mp hkey)
  exact List.mem_toFinset.mpr (hkeys e he)

/-- Putting a value under another key leaves the entry in place, as long as the keys that were put
after it are fewer than the store has room for. -/
theorem KeptUnder.put {s : Store κ τ ρ} {e : Entry κ τ ρ} {keys : List κ} {key : κ}
    (h : s.KeptUnder e keys) (hkey : key ≠ e.key) (now : τ) (value : ρ)
    (room : (keys ++ [key]).toFinset.card < s.capacity) :
    (s.put now key value).KeptUnder e (keys ++ [key]) := by
  obtain ⟨front, back, hentries, hfront, hnodup, hkeys⟩ := h.erase hkey
  let new : Entry κ τ ρ := ⟨key, now, value⟩
  have hfresh : ∀ b ∈ back, b.key ≠ key := fun b hb =>
    (mem_entries_erase.mp (by rw [hentries]; simp [hb])).2
  have hnodup' : ((back ++ [new]).map Entry.key).Nodup := by
    rw [List.map_append, List.map_singleton, List.nodup_append]
    refine ⟨hnodup, List.nodup_singleton _, fun k hk k' hk' heq => ?_⟩
    obtain ⟨b, hb, rfl⟩ := List.mem_map.mp hk
    exact hfresh b hb (heq.trans (List.mem_singleton.mp hk'))
  have hkeys' : ∀ b ∈ back ++ [new], b.key ∈ keys ++ [key] := by
    intro b hb
    rcases List.mem_append.mp hb with hb | hb
    · exact List.mem_append_left _ (hkeys b hb)
    · rw [List.mem_singleton.mp hb]
      exact List.mem_append_right _ List.mem_cons_self
  -- the entries behind are no more than the keys, so only entries in front make room
  have hlength := length_le_card hnodup' hkeys'
  have hall : (s.erase key).entries ++ [new] = front ++ e :: (back ++ [new]) := by simp [hentries]
  have hdrop : ((s.erase key).entries ++ [new]).length - s.capacity ≤ front.length := by
    rw [hall, List.length_append, List.length_cons]
    omega
  refine ⟨front.drop (((s.erase key).entries ++ [new]).length - s.capacity), back ++ [new], ?_,
    fun f hf => hfront f (List.mem_of_mem_drop hf), hnodup', hkeys'⟩
  show ((s.erase key).entries ++ [new]).drop
    (((s.erase key).entries ++ [new]).length - s.capacity) = _
  rw [← List.drop_append_of_le_length hdrop, ← hall]

/-- Right after a value has been put, its entry is the last one. -/
theorem keptUnder_put (s : Store κ τ ρ) (now : τ) (key : κ) (value : ρ) :
    (s.put now key value).KeptUnder ⟨key, now, value⟩ [] := by
  have hpos := s.capacity_pos
  let new : Entry κ τ ρ := ⟨key, now, value⟩
  have hdrop : ((s.erase key).entries ++ [new]).length - s.capacity ≤
      (s.erase key).entries.length := by
    rw [List.length_append, List.length_singleton]
    omega
  refine ⟨(s.erase key).entries.drop (((s.erase key).entries ++ [new]).length - s.capacity), [],
    List.drop_append_of_le_length hdrop, fun f hf => ?_, List.nodup_nil, fun b hb => nomatch hb⟩
  exact (mem_entries_erase.mp (List.mem_of_mem_drop hf)).2

end Store

namespace TimedStore

variable [AddCommGroup τ] [LinearOrder τ]

/-- The entry is kept, with only the given keys behind it; or its key is gone, and it had
expired. -/
def Retains (s : TimedStore κ τ ρ) (e : Entry κ τ ρ) (keys : List κ) : Prop :=
  s.store.KeptUnder e keys ∨
    (∀ f ∈ s.store.entries, f.key ≠ e.key) ∧ s.store.expired s.clock e

/-- What is retained is what a look-up answers, until it expires. -/
theorem lookup_of_retains {s : TimedStore κ τ ρ} {e : Entry κ τ ρ} {keys : List κ}
    (h : s.Retains e keys) :
    s.lookup e.key = if s.clock - e.storedAt ≤ s.store.ttl then some e.value else none := by
  have hexpired : s.store.expired s.clock e ↔ ¬s.clock - e.storedAt ≤ s.store.ttl := not_le.symm
  unfold lookup Store.get
  rcases h with hkept | ⟨hgone, hold⟩
  · rw [Store.find?_of_keptUnder hkept]
    by_cases hlive : s.clock - e.storedAt ≤ s.store.ttl
    · simp only [if_neg fun hold => hexpired.mp hold hlive, if_pos hlive]
    · simp only [if_pos (hexpired.mpr hlive), if_neg hlive]
  · have hnone : s.store.find? e.key = none :=
      List.find?_eq_none.mpr fun f hf => by simpa using hgone f hf
    rw [hnone, if_neg (hexpired.mp hold)]

/-- A look-up keeps what is retained, or drops it as expired. -/
theorem Retains.get {s : TimedStore κ τ ρ} {e : Entry κ τ ρ} {keys : List κ}
    (h : s.Retains e keys) (key : κ) : (s.step (.get key)).Retains e keys := by
  show Retains ⟨s.clock, (s.store.get s.clock key).2⟩ e keys
  rcases s.store.get_snd_cases s.clock key with hget | ⟨found, hfound, hold, hget⟩
  · rw [hget]
    exact h
  · rw [hget]
    by_cases hkey : key = e.key
    · refine .inr ⟨fun f hf => hkey ▸ (Store.mem_entries_erase.mp hf).2, ?_⟩
      rcases h with hkept | ⟨-, hold⟩
      · rw [hkey, Store.find?_of_keptUnder hkept] at hfound
        cases hfound
        exact hold
      · exact hold
    · rcases h with hkept | ⟨hgone, hold⟩
      · exact .inl (hkept.erase hkey)
      · exact .inr ⟨fun f hf => hgone f (Store.mem_entries_erase.mp hf).1, hold⟩

/-- Putting a value under another key keeps what is retained, while there is room. -/
theorem Retains.put {s : TimedStore κ τ ρ} {e : Entry κ τ ρ} {keys : List κ}
    (h : s.Retains e keys) {key : κ} (hkey : key ≠ e.key) (value : ρ)
    (room : (keys ++ [key]).toFinset.card < s.store.capacity) :
    (s.step (.put key value)).Retains e (keys ++ [key]) := by
  rcases h with hkept | ⟨hgone, hold⟩
  · exact .inl (hkept.put hkey s.clock value room)
  · refine .inr ⟨fun f hf => ?_, hold⟩
    rcases Store.mem_entries_put hf with rfl | ⟨hf, -⟩
    · exact hkey
    · exact hgone f hf

variable [IsOrderedAddMonoid τ]

/-- What has expired stays expired when the clock goes on. -/
theorem Retains.advance {s : TimedStore κ τ ρ} {e : Entry κ τ ρ} {keys : List κ}
    (h : s.Retains e keys) {by' : τ} (forward : 0 ≤ by') :
    (s.step (.advance by')).Retains e keys := by
  refine h.imp_right fun ⟨hgone, hold⟩ => ⟨hgone, ?_⟩
  have hold : s.store.ttl < s.clock - e.storedAt := hold
  show s.store.ttl < s.clock + by' - e.storedAt
  exact hold.trans_le (sub_le_sub_right (le_add_of_nonneg_right forward) _)

/-- A step that leaves the key alone keeps what is retained, while there is room. -/
theorem Retains.step {s : TimedStore κ τ ρ} {e : Entry κ τ ρ} {keys : List κ}
    {step : StoreStep κ τ ρ} (h : s.Retains e keys) (hclear : step ≠ .clear)
    (hkey : e.key ∉ storedKeys [step]) (forward : ∀ by', step = .advance by' → 0 ≤ by')
    (room : (keys ++ storedKeys [step]).toFinset.card < s.store.capacity) :
    (s.step step).Retains e (keys ++ storedKeys [step]) := by
  cases step with
  | get key =>
    rw [show storedKeys [StoreStep.get key] = [] from rfl, List.append_nil]
    exact h.get key
  | contains key =>
    rw [show storedKeys [StoreStep.contains key] = [] from rfl, List.append_nil]
    exact h
  | put key value =>
    have hne : key ≠ e.key := fun heq => hkey (List.mem_singleton.mpr heq.symm)
    exact h.put hne value room
  | clear => exact absurd rfl hclear
  | advance by' =>
    rw [show storedKeys [StoreStep.advance by'] = [] from rfl, List.append_nil]
    exact h.advance (forward by' rfl)

/-- After a value has been put, it is retained along all steps that leave its key alone and put
fewer other keys than the store has room for. -/
theorem retains_after (s : TimedStore κ τ ρ) (key : κ) (value : ρ)
    {later : List (StoreStep κ τ ρ)} (alone : Undisturbed key later)
    (forward : ∀ by', .advance by' ∈ later → 0 ≤ by')
    (room : (storedKeys later).toFinset.card < s.store.capacity) :
    ((s.step (.put key value)).after later).Retains ⟨key, s.clock, value⟩ (storedKeys later) := by
  induction later using List.reverseRecOn with
  | nil => exact .inl (s.store.keptUnder_put s.clock key value)
  | append_singleton later step ih =>
    obtain ⟨halone, hclear, hkey⟩ := undisturbed_concat_iff.mp alone
    have hroom := room
    rw [storedKeys_concat] at hroom
    -- there is no less room before the step
    have hless : (storedKeys later).toFinset.card < s.store.capacity := by
      refine Nat.lt_of_le_of_lt (Finset.card_le_card fun k hk => ?_) hroom
      exact List.mem_toFinset.mpr (List.mem_append_left _ (List.mem_toFinset.mp hk))
    have hbefore := ih halone (fun by' h => forward by' (List.mem_append_left _ h)) hless
    rw [after_concat, storedKeys_concat]
    refine hbefore.step hclear hkey (fun by' h => forward by' (by simp [h])) ?_
    rw [(limits_after _ _).2]
    exact hroom

/-- A value is answered for as long as it may live after it has been put, along all steps that leave
its key alone and put fewer other keys than the store has room for. -/
theorem lookup_after_put (s : TimedStore κ τ ρ) (before : List (StoreStep κ τ ρ)) (key : κ)
    (value : ρ) {later : List (StoreStep κ τ ρ)} (alone : Undisturbed key later)
    (forward : ∀ by', .advance by' ∈ later → 0 ≤ by')
    (room : (storedKeys later).toFinset.card < s.store.capacity) :
    (s.after (before ++ .put key value :: later)).lookup key =
      if (s.after (before ++ .put key value :: later)).clock - (s.after before).clock ≤
        s.store.ttl then some value else none := by
  have hafter : s.after (before ++ .put key value :: later) =
      ((s.after before).step (.put key value)).after later := by
    rw [after_append]
    rfl
  obtain ⟨hput, hcapacity⟩ := limits_after s before
  have httl : (((s.after before).step (.put key value)).after later).store.ttl = s.store.ttl := by
    rw [(limits_after _ _).1]
    exact hput
  rw [← hcapacity] at room
  have hlookup := lookup_of_retains (retains_after (s.after before) key value alone forward room)
  rw [httl] at hlookup
  rw [hafter]
  exact hlookup

/-- **A store after any history**: a look-up answers nothing but what was last put under the key
since the last clearing. If the clock never goes back and fewer other keys were put after that than
the store has room for, it answers that value for as long as the value may live, and then none. -/
theorem lookup_after {clock ttl : τ} {capacity : Nat} (positive : 0 < capacity)
    (steps : List (StoreStep κ τ ρ)) (key : κ) :
    (∀ value, ((start clock ttl capacity positive).after steps).lookup key = some value →
      ∃ before later, steps = before ++ .put key value :: later ∧ Undisturbed key later) ∧
    ((∀ by', .advance by' ∈ steps → 0 ≤ by') → ∀ before value later,
      steps = before ++ .put key value :: later → Undisturbed key later →
        (storedKeys later).toFinset.card < capacity →
          ((start clock ttl capacity positive).after steps).lookup key =
            if ((start clock ttl capacity positive).after steps).clock -
                ((start clock ttl capacity positive).after before).clock ≤ ttl
            then some value else none) := by
  constructor
  · intro value found
    exact exists_put_of_lookup rfl found
  · rintro forward before value later rfl alone room
    have hlater : ∀ by', .advance by' ∈ later → 0 ≤ by' := fun by' h =>
      forward by' (List.mem_append_right _ (List.mem_cons_of_mem _ h))
    exact lookup_after_put (start clock ttl capacity positive) before key value alone hlater room

/-- In a store with room for two, a value outlives two stores under one other key, up to the last
moment that it may. -/
theorem lookup_after_two_puts :
    0 < 2 ∧ ∀ wait : Int, 0 ≤ wait →
      ((start 0 10 2 (by decide) : TimedStore String Int Nat).after
        [.put "a" 1, .put "b" 2, .advance 4, .put "b" 3, .get "a", .advance wait]).lookup "a" =
          if 4 + wait ≤ 10 then some 1 else none := by
  refine ⟨by decide, fun wait hwait => ?_⟩
  let steps : List (StoreStep String Int Nat) :=
    [.put "a" 1, .put "b" 2, .advance 4, .put "b" 3, .get "a", .advance wait]
  have hforward : ∀ by', .advance by' ∈ steps → 0 ≤ by' := by simp [steps, hwait]
  have halone : Undisturbed "a" (steps.drop 1) := by simp [steps, Undisturbed, storedKeys]
  have hroom : (storedKeys (steps.drop 1)).toFinset.card < 2 := by
    show ["b", "b"].toFinset.card < 2
    decide
  have hanswer : ((start 0 10 2 (by decide)).after steps).lookup "a" = _ :=
    (lookup_after (by decide) steps "a").2 hforward [] 1 _ rfl halone hroom
  have hclock : ((start 0 10 2 (by decide) : TimedStore String Int Nat).after steps).clock -
      ((start 0 10 2 (by decide) : TimedStore String Int Nat).after []).clock = 4 + wait := by
    show 0 + 4 + wait - 0 = 4 + wait
    omega
  rw [hclock] at hanswer
  exact hanswer

end TimedStore

end GrammarAudit
