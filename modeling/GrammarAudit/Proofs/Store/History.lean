import GrammarAudit.Proofs.Analyzer.Entries
import Mathlib.Data.List.Induction

/-!
# Histories of a store

A store with a clock, on which look-ups, stores, clearings and advances of the clock are made in
any order. All that a store can answer was put into it, under the same key and not before the last
clearing, and was not replaced since.

- `TimedStore`, `StoreStep`, `TimedStore.after`: stores with a clock and the steps through them.
- `TimedStore.lookup`: what a look-up answers.
- `storedKeys`, `Undisturbed`: the keys that steps store under, and steps that leave a key alone.
- `TimedStore.exists_put_of_mem`: every entry is what was last put under its key.
- `TimedStore.exists_put_of_lookup`: so is all that a look-up answers.
-/

namespace GrammarAudit

universe u v w

/-- What can be done to a store or to its clock. -/
inductive StoreStep (κ : Type u) (τ : Type v) (ρ : Type w) where
  | get (key : κ)
  | contains (key : κ)
  | put (key : κ) (value : ρ)
  | clear
  | advance (by' : τ)

/-- A store and the time on its clock. -/
structure TimedStore (κ : Type u) (τ : Type v) (ρ : Type w) where
  clock : τ
  store : Store κ τ ρ

variable {κ : Type u} {τ : Type v} {ρ : Type w}

/-! ## Keys along a history -/

/-- The keys that steps store values under. -/
def storedKeys (steps : List (StoreStep κ τ ρ)) : List κ :=
  steps.filterMap fun
    | .put key _ => some key
    | _ => none

/-- The steps neither clear the store nor put anything under the key. -/
def Undisturbed (key : κ) (steps : List (StoreStep κ τ ρ)) : Prop :=
  .clear ∉ steps ∧ key ∉ storedKeys steps

theorem storedKeys_concat (steps : List (StoreStep κ τ ρ)) (step : StoreStep κ τ ρ) :
    storedKeys (steps ++ [step]) = storedKeys steps ++ storedKeys [step] :=
  List.filterMap_append

theorem undisturbed_concat_iff {key : κ} {steps : List (StoreStep κ τ ρ)}
    {step : StoreStep κ τ ρ} :
    Undisturbed key (steps ++ [step]) ↔
      Undisturbed key steps ∧ step ≠ .clear ∧ key ∉ storedKeys [step] := by
  simp only [Undisturbed, storedKeys_concat, List.mem_append, List.mem_singleton, not_or,
    ne_eq, eq_comm (a := step)]
  tauto

namespace TimedStore

/-! ## Runs of steps -/

/-- A store with no entries. -/
def start (clock ttl : τ) (capacity : Nat) (positive : 0 < capacity) : TimedStore κ τ ρ :=
  ⟨clock, { ttl, capacity, capacity_pos := positive }⟩

variable [DecidableEq κ] [Sub τ] [LT τ] [DecidableLT τ]

/-- What a look-up answers. -/
def lookup (s : TimedStore κ τ ρ) (key : κ) : Option ρ :=
  (s.store.get s.clock key).1

variable [Add τ]

/-- The store and its clock after a step. Asking whether a key has an entry changes nothing. -/
def step (s : TimedStore κ τ ρ) : StoreStep κ τ ρ → TimedStore κ τ ρ
  | .get key => { s with store := (s.store.get s.clock key).2 }
  | .contains _ => s
  | .put key value => { s with store := s.store.put s.clock key value }
  | .clear => { s with store := s.store.clear }
  | .advance by' => { s with clock := s.clock + by' }

/-- The store and its clock after a list of steps. -/
def after (s : TimedStore κ τ ρ) (steps : List (StoreStep κ τ ρ)) : TimedStore κ τ ρ :=
  steps.foldl step s

theorem after_append (s : TimedStore κ τ ρ) (steps more : List (StoreStep κ τ ρ)) :
    s.after (steps ++ more) = (s.after steps).after more :=
  List.foldl_append

theorem after_concat (s : TimedStore κ τ ρ) (steps : List (StoreStep κ τ ρ))
    (step : StoreStep κ τ ρ) : s.after (steps ++ [step]) = (s.after steps).step step :=
  List.foldl_append

/-- No step changes how long entries live and how many there can be. -/
theorem limits_step (s : TimedStore κ τ ρ) (step : StoreStep κ τ ρ) :
    (s.step step).store.ttl = s.store.ttl ∧
      (s.step step).store.capacity = s.store.capacity := by
  cases step with
  | get key => exact s.store.limits_get s.clock key
  | contains => exact ⟨rfl, rfl⟩
  | put => exact ⟨rfl, rfl⟩
  | clear => exact ⟨rfl, rfl⟩
  | advance => exact ⟨rfl, rfl⟩

theorem limits_after (s : TimedStore κ τ ρ) (steps : List (StoreStep κ τ ρ)) :
    (s.after steps).store.ttl = s.store.ttl ∧
      (s.after steps).store.capacity = s.store.capacity := by
  induction steps using List.reverseRecOn with
  | nil => exact ⟨rfl, rfl⟩
  | append_singleton steps step ih =>
    obtain ⟨httl, hcapacity⟩ := limits_step (s.after steps) step
    rw [after_concat, httl, hcapacity]
    exact ih

/-! ## Where entries come from -/

/-- The value was put under the key and has not been disturbed since. -/
def LastPut (s : TimedStore κ τ ρ) (steps : List (StoreStep κ τ ρ)) (e : Entry κ τ ρ) : Prop :=
  ∃ before later, steps = before ++ .put e.key e.value :: later ∧ Undisturbed e.key later ∧
    e.storedAt = (s.after before).clock

theorem LastPut.concat {s : TimedStore κ τ ρ} {steps : List (StoreStep κ τ ρ)} {e : Entry κ τ ρ}
    (h : s.LastPut steps e) {step : StoreStep κ τ ρ} (hclear : step ≠ .clear)
    (hkey : e.key ∉ storedKeys [step]) : s.LastPut (steps ++ [step]) e := by
  obtain ⟨before, later, rfl, hlater, htime⟩ := h
  exact ⟨before, later ++ [step], by simp, undisturbed_concat_iff.mpr ⟨hlater, hclear, hkey⟩,
    htime⟩

/-- Every entry of a store that was empty is what was last put under its key. -/
theorem exists_put_of_mem {s : TimedStore κ τ ρ} (empty : s.store.entries = [])
    (steps : List (StoreStep κ τ ρ)) : ∀ e ∈ (s.after steps).store.entries, s.LastPut steps e := by
  induction steps using List.reverseRecOn with
  | nil =>
    intro e hmem
    rw [show (s.after []).store.entries = [] from empty] at hmem
    cases hmem
  | append_singleton steps step ih =>
    intro e hmem
    rw [after_concat] at hmem
    cases step with
    | get key =>
      exact (ih e (Store.mem_entries_get hmem)).concat (by simp) (by simp [storedKeys])
    | contains => exact (ih e hmem).concat (by simp) (by simp [storedKeys])
    | put key value =>
      rcases Store.mem_entries_put hmem with rfl | ⟨hold, hne⟩
      · exact ⟨steps, [], rfl, by simp [Undisturbed, storedKeys], rfl⟩
      · exact (ih e hold).concat (by simp) (by simpa [storedKeys] using hne)
    | clear => cases hmem
    | advance => exact (ih e hmem).concat (by simp) (by simp [storedKeys])

/-- What a look-up answers was put under the key, and the key was left alone after that. -/
theorem exists_put_of_lookup {s : TimedStore κ τ ρ} (empty : s.store.entries = [])
    {steps : List (StoreStep κ τ ρ)} {key : κ} {value : ρ}
    (found : (s.after steps).lookup key = some value) :
    ∃ before later, steps = before ++ .put key value :: later ∧ Undisturbed key later := by
  unfold lookup at found
  rcases (s.after steps).store.get_cases (s.after steps).clock key with
    ⟨e, hmem, rfl, -, hget⟩ | hget | hget
  · rw [hget] at found
    cases found
    obtain ⟨before, later, hsteps, hlater, -⟩ := exists_put_of_mem empty steps e hmem
    exact ⟨before, later, hsteps, hlater⟩
  · rw [hget] at found
    cases found
  · rw [hget] at found
    cases found

end TimedStore

end GrammarAudit
