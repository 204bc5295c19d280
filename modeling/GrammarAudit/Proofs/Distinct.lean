import GrammarAudit.Distinct

/-!
# Lists without repeats

- `mem_firstPerKey_of_injective`, `mem_distinct`: dropping repeats keeps every entry.
- `firstPerKey_sublist`, `nodup_map_firstPerKey`, `mem_map_firstPerKey`: what is kept stands in
  order, with every key once.
- `find?_of_mem_firstPerKey`: what is kept is the first entry of its key.
- `filter_firstPerKey`: leaving keys out before or after makes no difference.
- `distinct_perm`: lists with the same entries in another order have the same distinct ones.
- `distinct_concat`: an entry at the end of a list counts if it is new.
- `pairwise_distinct`: the distinct entries come in the order of their first places.
- `length_distinct_lt_iff`: the distinct entries are fewer exactly if some entry is repeated.
- `distinct_eq_eraseDups`: the list without repeats is the one of the standard library.
-/

namespace GrammarAudit

variable {α β : Type}

/-- Where different entries have different keys, every entry is kept. -/
theorem mem_firstPerKey_of_injective [DecidableEq β] {key : α → β}
    (hkey : ∀ a b, key a = key b → a = b) (l : List α) {a : α} :
    a ∈ firstPerKey key l ↔ a ∈ l := by
  induction l with
  | nil => exact Iff.rfl
  | cons b l ih =>
    rw [firstPerKey, List.mem_cons, List.mem_cons, List.mem_filter, ih, decide_eq_true_eq]
    constructor
    · rintro (h | h)
      · exact .inl h
      · exact .inr h.1
    · rintro (h | h)
      · exact .inl h
      · by_cases hab : key a = key b
        · exact .inl (hkey a b hab)
        · exact .inr ⟨h, hab⟩

@[simp] theorem mem_distinct [DecidableEq α] {l : List α} {a : α} : a ∈ distinct l ↔ a ∈ l :=
  mem_firstPerKey_of_injective (fun _ _ h => h) l

/-! ## The first entry of each key -/

section FirstPerKey

variable [DecidableEq β] {key : α → β}

theorem firstPerKey_sublist (key : α → β) (l : List α) : (firstPerKey key l).Sublist l := by
  induction l with
  | nil => exact List.Sublist.slnil
  | cons a l ih => exact (List.filter_sublist.trans ih).cons_cons a

theorem nodup_map_firstPerKey (key : α → β) (l : List α) :
    ((firstPerKey key l).map key).Nodup := by
  induction l with
  | nil => exact List.Pairwise.nil
  | cons a l ih =>
    rw [firstPerKey, List.map_cons, List.nodup_cons]
    constructor
    · intro hmem
      obtain ⟨b, hb, hkey⟩ := List.mem_map.mp hmem
      have hne : key b ≠ key a := of_decide_eq_true (List.mem_filter.mp hb).2
      exact hne hkey
    · exact ih.sublist (List.filter_sublist.map key)

theorem mem_map_firstPerKey {l : List α} {k : β} :
    k ∈ (firstPerKey key l).map key ↔ k ∈ l.map key := by
  induction l with
  | nil => exact Iff.rfl
  | cons a l ih =>
    rw [firstPerKey, List.map_cons, List.map_cons, List.mem_cons, List.mem_cons, ← ih]
    constructor
    · rintro (h | h)
      · exact .inl h
      · obtain ⟨b, hb, hkey⟩ := List.mem_map.mp h
        exact .inr (List.mem_map.mpr ⟨b, (List.mem_filter.mp hb).1, hkey⟩)
    · rintro (h | h)
      · exact .inl h
      · by_cases hk : k = key a
        · exact .inl hk
        · obtain ⟨b, hb, rfl⟩ := List.mem_map.mp h
          exact .inr (List.mem_map.mpr ⟨b, List.mem_filter.mpr ⟨hb, by simpa using hk⟩, rfl⟩)

/-- What is kept is the first entry of its key. -/
theorem find?_of_mem_firstPerKey {l : List α} {a : α} (h : a ∈ firstPerKey key l) :
    l.find? (fun b => key b = key a) = some a := by
  induction l with
  | nil => cases h
  | cons b l ih =>
    rcases List.mem_cons.mp h with rfl | h
    · exact List.find?_cons_of_pos (by simp)
    · obtain ⟨hmem, hkey⟩ := List.mem_filter.mp h
      have hne : key a ≠ key b := of_decide_eq_true hkey
      rw [List.find?_cons_of_neg (by simpa using hne.symm)]
      exact ih hmem

/-- Keys can be left out before or after the first entries are taken. -/
theorem filter_firstPerKey (q : β → Bool) (l : List α) :
    (firstPerKey key l).filter (fun a => q (key a)) =
      firstPerKey key (l.filter fun a => q (key a)) := by
  induction l with
  | nil => rfl
  | cons a l ih =>
    by_cases hq : q (key a) = true
    · rw [firstPerKey, List.filter_cons, if_pos hq, List.filter_cons, if_pos hq, firstPerKey,
        ← ih, List.filter_filter, List.filter_filter]
      simp only [Bool.and_comm]
    · rw [firstPerKey, List.filter_cons, if_neg hq, List.filter_cons, if_neg hq, ← ih,
        List.filter_filter]
      refine List.filter_congr fun b _ => ?_
      by_cases hb : key b = key a
      · rw [hb, Bool.eq_false_iff.mpr hq, Bool.false_and]
      · simp [hb]

end FirstPerKey

/-! ## Distinct entries -/

section Distinct

variable [DecidableEq α]

theorem distinct_cons (a : α) (l : List α) :
    distinct (a :: l) = a :: (distinct l).filter fun b => b ≠ a := rfl

theorem nodup_distinct (l : List α) : (distinct l).Nodup := by
  have h : ((distinct l).map id).Nodup := nodup_map_firstPerKey id l
  rwa [List.map_id] at h

/-- The order of a list does not matter for which entries it has. -/
theorem distinct_perm {l l' : List α} (h : l.Perm l') : (distinct l).Perm (distinct l') := by
  refine (List.perm_ext_iff_of_nodup (nodup_distinct l) (nodup_distinct l')).mpr fun a => ?_
  rw [mem_distinct, mem_distinct, h.mem_iff]

/-- An entry at the end of a list counts if it is new. -/
theorem distinct_concat (l : List α) (a : α) :
    distinct (l ++ [a]) = if a ∈ distinct l then distinct l else distinct l ++ [a] := by
  induction l with
  | nil => rfl
  | cons b l ih =>
    rw [List.cons_append, distinct_cons, distinct_cons, ih]
    by_cases hb : a = b
    · subst hb
      rw [if_pos List.mem_cons_self]
      split
      · rfl
      · simp [List.filter_append]
    · by_cases ha : a ∈ distinct l
      · simp [ha, hb]
      · simp [ha, hb, List.filter_append]

/-- The distinct entries come in the order of their first places: one that comes before another has
a place before every place of the other. -/
theorem pairwise_distinct (l : List α) :
    (distinct l).Pairwise fun a b => ∀ j : Nat, l[j]? = some b → ∃ i < j, l[i]? = some a := by
  induction l with
  | nil => exact List.Pairwise.nil
  | cons c l ih =>
    -- every place of an entry other than the first one is a place in the rest
    have hrest {b : α} (hb : b ≠ c) {j : Nat} (hj : (c :: l)[j]? = some b) :
        ∃ k, j = k + 1 ∧ l[k]? = some b := by
      cases j with
      | zero => exact absurd (Option.some.inj hj).symm hb
      | succ k => exact ⟨k, rfl, hj⟩
    rw [distinct_cons, List.pairwise_cons]
    constructor
    · intro b hb j hj
      obtain ⟨k, rfl, -⟩ := hrest (of_decide_eq_true (List.mem_filter.mp hb).2) hj
      exact ⟨0, Nat.succ_pos k, rfl⟩
    · refine (ih.sublist List.filter_sublist).imp_of_mem fun {a b} _ hb hbefore j hj => ?_
      obtain ⟨k, rfl, hk⟩ := hrest (of_decide_eq_true (List.mem_filter.mp hb).2) hj
      obtain ⟨i, hi, ha⟩ := hbefore k hk
      exact ⟨i + 1, Nat.succ_lt_succ hi, ha⟩

/-- A list without repeats has no entry to drop. -/
theorem distinct_of_nodup {l : List α} (h : l.Nodup) : distinct l = l := by
  induction l with
  | nil => rfl
  | cons a l ih =>
    obtain ⟨ha, hl⟩ := List.nodup_cons.mp h
    rw [distinct_cons, ih hl, List.filter_eq_self.mpr]
    intro b hb
    have hne : b ≠ a := fun hba => ha (hba ▸ hb)
    exact decide_eq_true hne

/-- The distinct entries are fewer exactly if some entry is repeated. -/
theorem length_distinct_lt_iff {l : List α} : (distinct l).length < l.length ↔ ¬l.Nodup := by
  have hsublist : (distinct l).Sublist l := firstPerKey_sublist id l
  constructor
  · intro hlt hnodup
    rw [distinct_of_nodup hnodup] at hlt
    exact Nat.lt_irrefl _ hlt
  · intro hrepeat
    refine Nat.lt_of_le_of_ne hsublist.length_le fun hlength => hrepeat ?_
    rw [← hsublist.eq_of_length hlength]
    exact nodup_distinct l

/-- Repeats of an entry right after it make no difference. -/
theorem distinct_replicate_append (n : Nat) (a : α) (l : List α) :
    distinct (List.replicate (n + 1) a ++ l) = distinct (a :: l) := by
  induction n with
  | zero => rfl
  | succ n ih =>
    rw [List.replicate_succ, List.cons_append, distinct_cons, ih, distinct_cons,
      List.filter_cons_of_neg (by simp), List.filter_filter]
    simp

/-- The list without repeats is the one of the standard library. -/
theorem distinct_eq_eraseDups [BEq α] [LawfulBEq α] (l : List α) : distinct l = l.eraseDups := by
  induction h : l.length using Nat.strongRecOn generalizing l with
  | _ n ih =>
    subst h
    cases l with
    | nil => rfl
    | cons a l =>
      have hfilter : (distinct l).filter (fun b => b ≠ a) = distinct (l.filter fun b => b ≠ a) :=
        filter_firstPerKey (fun b => decide (b ≠ a)) l
      have hle : (l.filter fun b => decide (b ≠ a)).length ≤ l.length := List.length_filter_le _ _
      rw [distinct_cons, hfilter, List.eraseDups_cons,
        ih _ (Nat.lt_succ_of_le hle) (l.filter fun b => b ≠ a) rfl]
      congr 2
      exact List.filter_congr fun b _ => Bool.eq_iff_iff.mpr (by simp)

end Distinct

end GrammarAudit
